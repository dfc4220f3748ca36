import HostedLisp.Text.Lookahead
import Mathlib.Data.Stream.Init

/-!
# The end of the input

What a source gives, pull after pull, is a stream of answers, and a reader has such a stream in
front of it as well: the content of its slot, if there is one, and then the answers of the source.
A peek shows the first answer and leaves the stream as it is, and `next` hands out the first answer
and leaves the others, so the slot never shows.

A reader therefore ends when its source does. It goes on answering that there is nothing more
exactly if the source never gives a character again once it has given none, and a source need not
be like that: the slot remembers a missing character only until it is handed out.

## Main definitions

* `CharSource.answers`, `CharSource.Fused` — all answers of a source; sources that end for good
* `Look`, `Lookahead.look`, `Lookahead.lookAll` — looking at single characters
* `Lookahead.EndFinal` — the promise that nothing follows the end

## Main results

* `Lookahead.ahead_lookAll` — the answers that are left behind any looks
* `Lookahead.endFinal_iff_fused` — the promise holds exactly of the sources that end for good
* `Lookahead.endFinal_ofString` — it holds of every text
* `Lookahead.not_endFinal_gap` — a source with a gap breaks it
-/

namespace HostedLisp

namespace CharSource

variable {ι : Type} [CharSource ι]

/-- What the source answers, pull after pull. -/
def answers (source : ι) : Stream' (Option Char) := Stream'.corec' pull source

theorem answers_eq (source : ι) :
    answers source = Stream'.cons (pull source).1 (answers (pull source).2) :=
  Stream'.corec'_eq pull source

/-- Once there is no character, there is never one again. -/
def StaysEnded (answers : Stream' (Option Char)) : Prop :=
  ∀ n, answers.get n = none → answers.get (n + 1) = none

/-- Once the source has given no character, it never gives one again. -/
def Fused (source : ι) : Prop := StaysEnded (answers source)

/-- A list of answers is given in order, and then none forever. Not every such source is fused. -/
instance : CharSource (List (Option Char)) where
  pull
    | [] => (none, [])
    | answer :: others => (answer, others)

/-- A list of characters ends for good. -/
theorem fused_list (cs : List Char) : Fused cs := by
  intro n hnone
  induction cs generalizing n with
  | nil =>
    have hconst : answers ([] : List Char) = Stream'.const none := by
      funext m
      induction m with
      | zero => rfl
      | succ m ih =>
        rw [answers_eq]
        exact ih
    rw [hconst]
    rfl
  | cons c cs ih =>
    rw [answers_eq] at hnone ⊢
    cases n with
    | zero => cases hnone
    | succ n => exact ih n hnone

end CharSource

/-- One look at a reader. -/
inductive Look where
  /-- Looks at the next character. -/
  | peek
  /-- Hands out the next character. -/
  | next
  /-- Asks whether there is no further character. -/
  | atEnd
  deriving DecidableEq

namespace Lookahead

variable {ι : Type} [CharSource ι] {r : Lookahead ι}

/-- Whether the answer to a look is that nothing is left, and the reader behind the look. -/
def look (r : Lookahead ι) : Look → Bool × Lookahead ι
  | .peek => (r.peek.1.isNone, r.peek.2)
  | .next => (r.next.1.isNone, r.next.2)
  | .atEnd => r.atEnd

/-- The reader behind many looks. -/
def lookAll (r : Lookahead ι) (looks : List Look) : Lookahead ι :=
  looks.foldl (fun r l => (r.look l).2) r

/-- Nothing follows the end: when a peek or a read has found no character, whatever looks there were
before, every later one finds none, and count and position stay. -/
def EndFinal (r : Lookahead ι) : Prop :=
  ∀ (before : List Look) (l : Look) (behind : List Look) (later : Look), l ≠ .atEnd →
    let ended := (r.lookAll before).look l
    let found := (ended.2.lookAll behind).look later
    ended.1 = true →
      found.1 = true ∧ found.2.offset = ended.2.offset ∧ found.2.pos = ended.2.pos

/-! ### The answers in front of a reader -/

/-- What a reader will hand out: the content of its slot comes before what the source answers. -/
def ahead (r : Lookahead ι) : Stream' (Option Char) :=
  match r.slot with
  | some answer => Stream'.cons answer (CharSource.answers r.source)
  | none => CharSource.answers r.source

theorem ahead_ofSource (source : ι) : (ofSource source).ahead = CharSource.answers source := rfl

/-- **Peeking** shows the first answer and takes none away. -/
theorem peek_ahead (r : Lookahead ι) :
    r.peek.1 = r.ahead.head ∧ r.peek.2.ahead = r.ahead := by
  obtain ⟨source, slot, offset, pos⟩ := r
  cases slot with
  | some answer => exact ⟨rfl, rfl⟩
  | none => exact ⟨rfl, (CharSource.answers_eq source).symm⟩

/-- **Handing out** takes the first answer away. -/
theorem next_ahead (r : Lookahead ι) :
    r.next.1 = r.ahead.head ∧ r.next.2.ahead = r.ahead.tail := by
  obtain ⟨source, slot, offset, pos⟩ := r
  cases slot with
  | some answer => cases answer <;> exact ⟨rfl, rfl⟩
  | none =>
    have hpull := CharSource.answers_eq source
    rcases hanswer : CharSource.pull source with ⟨_ | c, source'⟩ <;>
      simp only [next, ahead, hanswer, count] at hpull ⊢ <;> rw [hpull] <;> exact ⟨rfl, rfl⟩

/-- **A look answers by the first answer**, and only `next` takes it away. -/
theorem look_ahead (r : Lookahead ι) (l : Look) :
    (r.look l).1 = r.ahead.head.isNone ∧
      (r.look l).2.ahead = r.ahead.drop (if l = .next then 1 else 0) := by
  cases l with
  | peek | atEnd =>
    obtain ⟨hanswer, hothers⟩ := r.peek_ahead
    exact ⟨congrArg Option.isNone hanswer, hothers⟩
  | next =>
    obtain ⟨hanswer, hothers⟩ := r.next_ahead
    exact ⟨congrArg Option.isNone hanswer, hothers⟩

/-- **Many looks** take away as many answers as they hand out. -/
theorem ahead_lookAll (r : Lookahead ι) (looks : List Look) :
    (r.lookAll looks).ahead = r.ahead.drop (looks.count .next) := by
  induction looks generalizing r with
  | nil => rfl
  | cons l looks ih =>
    have hfirst : (r.lookAll (l :: looks)).ahead
        = (r.look l).2.ahead.drop (looks.count .next) := ih (r.look l).2
    rw [hfirst, (r.look_ahead l).2, Stream'.drop_drop]
    by_cases hnext : l = .next <;> simp [hnext, Nat.add_comm]

/-! ### Readers that have ended -/

theorem eq_const_of_staysEnded {answers : Stream' (Option Char)}
    (h : CharSource.StaysEnded answers) (hnone : answers.head = none) :
    answers = Stream'.const none := by
  funext n
  induction n with
  | zero => exact hnone
  | succ n ih => exact h n ih

theorem staysEnded_drop {answers : Stream' (Option Char)} (h : CharSource.StaysEnded answers)
    (k : Nat) : CharSource.StaysEnded (answers.drop k) := by
  intro n hnone
  have hnext : answers.get (n + k + 1) = none := h (n + k) hnone
  rwa [Nat.add_right_comm] at hnext

/-- A look that finds nothing counts nothing. -/
theorem count_look (h : r.ahead.head = none) (l : Look) :
    (r.look l).2.offset = r.offset ∧ (r.look l).2.pos = r.pos := by
  obtain ⟨source, slot, offset, pos⟩ := r
  match l, slot with
  | .peek, some answer | .atEnd, some answer | .peek, none | .atEnd, none => exact ⟨rfl, rfl⟩
  | .next, some answer =>
    obtain rfl : answer = none := h
    exact ⟨rfl, rfl⟩
  | .next, none =>
    have hnone : (CharSource.pull source).1 = none := h
    simp [look, next, hnone]

/-- **Behind the end every look finds nothing and changes nothing.** -/
theorem lookAll_of_ended (h : r.ahead = Stream'.const none) (looks : List Look) :
    (r.lookAll looks).ahead = Stream'.const none ∧ (r.lookAll looks).offset = r.offset ∧
      (r.lookAll looks).pos = r.pos := by
  induction looks generalizing r with
  | nil => exact ⟨h, rfl, rfl⟩
  | cons l looks ih =>
    have hbehind : (r.look l).2.ahead = Stream'.const none := by
      rw [(r.look_ahead l).2, h, Stream'.drop_const]
    obtain ⟨hanswers, hoffset, hpos⟩ := ih hbehind
    obtain ⟨hcount, hplace⟩ := count_look (by rw [h]; rfl) l
    exact ⟨hanswers, hoffset.trans hcount, hpos.trans hplace⟩

/-- A source that ends for good makes the end final for its reader. -/
theorem endFinal_of_staysEnded (h : CharSource.StaysEnded r.ahead) : r.EndFinal := by
  intro before l behind later _ ended found hended
  obtain ⟨hanswer, hothers⟩ := (r.lookAll before).look_ahead l
  have hnone : (r.lookAll before).ahead.head = none :=
    Option.isNone_iff_eq_none.1 (hanswer.symm.trans hended)
  have hconst : (r.lookAll before).ahead = Stream'.const none := by
    refine eq_const_of_staysEnded ?_ hnone
    rw [ahead_lookAll]
    exact staysEnded_drop h _
  have hbehind : ended.2.ahead = Stream'.const none := by
    rw [hothers, hconst, Stream'.drop_const]
  obtain ⟨hlast, hoffset, hpos⟩ := lookAll_of_ended hbehind behind
  obtain ⟨hcount, hplace⟩ := count_look (by rw [hlast]; rfl) later
  refine ⟨?_, hcount.trans hoffset, hplace.trans hpos⟩
  rw [(look_ahead _ later).1, hlast]
  rfl

/-- The next answer behind some characters that are handed out. -/
theorem look_next_replicate (r : Lookahead ι) (n : Nat) :
    ((r.lookAll (List.replicate n .next)).look .next).1 = (r.ahead.get n).isNone := by
  rw [(look_ahead _ .next).1, ahead_lookAll, List.count_replicate_self]
  simp

/-- A final end is that of a source which ends for good. Handing out characters one after the other
shows all answers. -/
theorem staysEnded_of_endFinal (h : r.EndFinal) :
    CharSource.StaysEnded r.ahead := by
  intro n hnone
  have hended : ((r.lookAll (List.replicate n .next)).look .next).1 = true := by
    rw [look_next_replicate]
    exact Option.isNone_iff_eq_none.2 hnone
  have hlater := (h (List.replicate n .next) .next [] .next (by decide) hended).1
  have hbehind : ((r.lookAll (List.replicate n .next)).look .next).2
      = r.lookAll (List.replicate (n + 1) .next) := by
    rw [List.replicate_succ', lookAll, lookAll, List.foldl_append]
    rfl
  rw [hbehind] at hlater
  exact Option.isNone_iff_eq_none.1 ((look_next_replicate r (n + 1)).symm.trans hlater)

/-- **The end of the input is final exactly for sources that end for good.** The reader adds nothing
to its source: it remembers a missing character in its slot until it hands it out, and then it asks
the source again. -/
theorem endFinal_iff_fused (source : ι) :
    (ofSource source).EndFinal ↔ CharSource.Fused source := by
  rw [CharSource.Fused, ← ahead_ofSource]
  exact ⟨staysEnded_of_endFinal, endFinal_of_staysEnded⟩

/-- A source that gives none and then a character breaks the promise: two reads find nothing and
then the character. -/
theorem not_endFinal_gap : ¬ (ofSource [none, some 'b']).EndFinal := by
  intro h
  have hlater := (h [] .next [] .next (by decide) rfl).1
  exact Bool.false_ne_true hlater

/-- The end of a text is final. -/
theorem endFinal_ofString (s : String) : (ofString s).EndFinal := by
  refine endFinal_of_staysEnded ?_
  rw [ofString, ahead_ofSource]
  exact CharSource.fused_list s.toList

end Lookahead

end HostedLisp
