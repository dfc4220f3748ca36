import HostedLisp.Text.Escaped
import Mathlib.Data.List.Basic

/-!
# Escaped texts show where they end

Listings put texts next to each other, with marks between them that may occur in the texts as well.
Nothing in such a listing can be taken for something else if each text shows by itself where it
ends. Escaped texts do: a quote or a backslash that belongs to the text has a backslash in front,
and what follows a backslash says how far the escape reaches.

A function with this property is injective, and it stays so whatever comes behind. This is what lets
the property pass from the parts of a listing to the whole.

## Main definitions

* `Delimits` — a list shows what it is made of and where it ends

## Main results

* `delimits_nil`, `delimits_cons`, `delimits_flatMap_append` — lists of parts with a mark at the end
* `delimits_escapedQuote` — escaped texts
-/

namespace HostedLisp

/-- A list that begins with what `f` makes of `a` begins with nothing that `f` makes of anything
else. -/
def Delimits {α β : Type} (f : α → List β) (a : α) : Prop :=
  ∀ ⦃b : α⦄ ⦃r s : List β⦄, f a ++ r = f b ++ s → a = b ∧ r = s

section Delimits

variable {α β : Type} {f : α → List β}

theorem Delimits.eq {a b : α} (h : Delimits f a) (hab : f a = f b) : a = b :=
  (h (congrArg (· ++ []) hab)).1

theorem Delimits.append_left {a : α} (h : Delimits f a) (before : List β) :
    Delimits (fun a => before ++ f a) a := by
  intro b r s hab
  simp only [List.append_assoc] at hab
  exact h (List.append_cancel_left hab)

theorem Delimits.append_right {a : α} (h : Delimits f a) (behind : List β) :
    Delimits (fun a => f a ++ behind) a := by
  intro b r s hab
  simp only [List.append_assoc] at hab
  obtain ⟨rfl, hrest⟩ := h hab
  exact ⟨rfl, List.append_cancel_left hrest⟩

/-- The empty list can be told from all others. -/
theorem delimits_nil {f : List α → List β} (hne : ∀ a as r s, f (a :: as) ++ r ≠ f [] ++ s) :
    Delimits f [] := by
  intro bs r s h
  cases bs with
  | nil => exact ⟨rfl, List.append_cancel_left h⟩
  | cons b bs => exact absurd h.symm (hne b bs s r)

/-- A list that is not empty can be told from the empty one and from those that are not. -/
theorem delimits_cons {f : List α → List β} {a : α} {as : List α}
    (hne : ∀ a as r s, f (a :: as) ++ r ≠ f [] ++ s)
    (hcons : ∀ b bs r s, f (a :: as) ++ r = f (b :: bs) ++ s → (a = b ∧ as = bs) ∧ r = s) :
    Delimits f (a :: as) := by
  intro bs r s h
  cases bs with
  | nil => exact absurd h (hne a as r s)
  | cons b bs =>
    obtain ⟨⟨rfl, rfl⟩, rfl⟩ := hcons b bs r s h
    exact ⟨rfl, rfl⟩

/-- The parts of a list can be told apart if the list ends with a mark that none of them begins
with. -/
theorem delimits_flatMap_append {stop : List β} (hf : ∀ a, Delimits f a)
    (hstop : ∀ a r s, f a ++ r ≠ stop ++ s) (as : List α) :
    Delimits (fun as => as.flatMap f ++ stop) as := by
  have hne (a : α) (as : List α) (r s : List β) :
      ((a :: as).flatMap f ++ stop) ++ r ≠ (List.flatMap f [] ++ stop) ++ s := by
    simpa only [List.flatMap_cons, List.flatMap_nil, List.nil_append, List.append_assoc] using
      hstop a _ s
  induction as with
  | nil => exact delimits_nil hne
  | cons a as ih =>
    refine delimits_cons hne fun b bs r s h => ?_
    simp only [List.flatMap_cons, List.append_assoc] at h
    obtain ⟨hfirst, hothers⟩ := hf a h
    obtain ⟨hlist, hrest⟩ := ih (by simpa only [List.append_assoc] using hothers)
    exact ⟨⟨hfirst, hlist⟩, hrest⟩

end Delimits

namespace Escaped

/-! ### Code points in hexadecimal -/

theorem digitChar_inj {m n : Nat} (hm : m < 16) (hn : n < 16) (h : m.digitChar = n.digitChar) :
    m = n := by
  have hall : ∀ m < 16, ∀ n < 16, m.digitChar = n.digitChar → m = n := by decide
  exact hall m hm n hn h

/-- A number can be read off its hexadecimal digits. -/
theorem toDigits_inj {m n : Nat} (h : Nat.toDigits 16 m = Nat.toDigits 16 n) : m = n := by
  induction m using Nat.strongRecOn generalizing n with
  | ind m ih =>
    rw [Nat.toDigits_eq_if (by decide), Nat.toDigits_eq_if (n := n) (by decide)] at h
    split at h <;> split at h
    · exact digitChar_inj ‹_› ‹_› (List.singleton_inj.1 h)
    · exact absurd (congrArg List.length h) (by simp [Nat.toDigits_ne_nil])
    · exact absurd (congrArg List.length h) (by simp [Nat.toDigits_ne_nil])
    · obtain ⟨hfirst, hlast⟩ := List.append_inj' h rfl
      have hquotient := ih (m / 16) (by omega) hfirst
      have hremainder := digitChar_inj (m.mod_lt (by decide)) (n.mod_lt (by decide))
        (List.singleton_inj.1 hlast)
      omega

/-- Two texts that go on with the same character, and do not have it in them, are equal. -/
theorem append_cons_inj {xs ys r s : List Char} {stop : Char} (hx : stop ∉ xs) (hy : stop ∉ ys)
    (h : xs ++ stop :: r = ys ++ stop :: s) : xs = ys ∧ r = s := by
  have htake {zs : List Char} (hz : stop ∉ zs) (rest : List Char) :
      (zs ++ stop :: rest).takeWhile (· != stop) = zs := by
    have hall : ∀ z ∈ zs, (z != stop) = true :=
      fun z hmem => bne_iff_ne.2 fun heq => hz (heq ▸ hmem)
    rw [List.takeWhile_append_of_pos hall]
    simp
  have hxs : xs = ys := by rw [← htake hx r, h, htake hy s]
  subst hxs
  exact ⟨rfl, List.tail_eq_of_cons_eq (List.append_cancel_left h)⟩

theorem brace_notMem_toDigits (n : Nat) : '\x7d' ∉ Nat.toDigits 16 n := by
  induction n using Nat.strongRecOn with
  | ind n ih =>
    have hdigit (d : Nat) : '\x7d' ≠ d.digitChar := (Nat.digitChar_ne _ (by decide)).symm
    rw [Nat.toDigits_eq_if (by decide)]
    split
    · simp [hdigit]
    · simp [hdigit, ih (n / 16) (by omega)]

/-! ### Characters -/

theorem letter?_inj {c d l : Char} (hc : letter? c = some l) (hd : letter? d = some l) : c = d := by
  unfold letter? at hc
  split at hc <;> cases hc <;> unfold letter? at hd <;> split at hd <;> cases hd <;> rfl

theorem letter?_ne_u (c : Char) : letter? c ≠ some 'u' := by
  unfold letter?
  split <;> simp

/-- The three ways in which a character is written. -/
theorem escapeChar_cases (c : Char) :
    (∃ l, letter? c = some l ∧ escapeChar c = ['\\', l]) ∨
      (c ≠ '"' ∧ c ≠ '\\' ∧ escapeChar c = [c]) ∨
      escapeChar c = '\\' :: 'u' :: '\x7b' :: (Nat.toDigits 16 c.toNat ++ ['\x7d']) := by
  unfold escapeChar
  cases hletter : letter? c with
  | some l => exact .inl ⟨l, rfl, rfl⟩
  | none =>
    have hquote : c ≠ '"' := by rintro rfl; cases hletter
    have hbackslash : c ≠ '\\' := by rintro rfl; cases hletter
    cases hshown : Text.isShown c <;> simp [hquote, hbackslash]

theorem delimits_escapeChar (c : Char) : Delimits escapeChar c := by
  intro d r s h
  rcases escapeChar_cases c with ⟨l, hl, hc⟩ | ⟨-, hc', hc⟩ | hc <;>
    rcases escapeChar_cases d with ⟨k, hk, hd⟩ | ⟨-, hd', hd⟩ | hd <;> rw [hc, hd] at h
  -- The first two characters tell the three ways apart, since `u` is no letter.
  all_goals simp only [List.cons_append, List.nil_append, List.append_assoc, List.cons.injEq,
    true_and] at h
  · exact ⟨letter?_inj hl (h.1 ▸ hk), h.2⟩
  · exact absurd h.1.symm hd'
  · exact absurd (h.1 ▸ hl) (letter?_ne_u c)
  · exact absurd h.1 hc'
  · exact h
  · exact absurd h.1 hc'
  · exact absurd (h.1 ▸ hk) (letter?_ne_u d)
  · exact absurd h.1.symm hd'
  · obtain ⟨hdigits, hrest⟩ :=
      append_cons_inj (brace_notMem_toDigits _) (brace_notMem_toDigits _) h
    exact ⟨Char.toNat_inj.1 (toDigits_inj hdigits), hrest⟩

/-! ### Texts -/

/-- Where the next character may begin, a quote can only be the end of the text. -/
theorem delimits_quoteList (cs : List Char) : Delimits quoteList cs := by
  have hquote (c : Char) (r s : List Char) : escapeChar c ++ r ≠ ['"'] ++ s := by
    rcases escapeChar_cases c with ⟨l, -, hc⟩ | ⟨hne, -, hc⟩ | hc <;> rw [hc] <;> simp
    exact fun heq => absurd heq hne
  intro ds r s h
  exact delimits_flatMap_append delimits_escapeChar hquote cs (List.tail_eq_of_cons_eq h)

end Escaped

/-- **An escaped text shows by itself where it ends**, and is that of one text only. -/
theorem delimits_escapedQuote (name : String) :
    Delimits (fun name => (escapedQuote name).toList) name := by
  intro name' r s h
  simp only [escapedQuote, String.toList_ofList] at h
  obtain ⟨hname, hrest⟩ := Escaped.delimits_quoteList name.toList h
  exact ⟨String.toList_inj.1 hname, hrest⟩

end HostedLisp
