/-!
# Whole numbers in decimal

A whole number is written with the fewest digits (`Nat.toDigits 10`). Reading takes digits only,
and `natural?_toDigits` says that it undoes writing. Texts that end with a dash and a number are
equal only if the numbers are (`dash_repr_inj`).
-/

namespace StreamPipeline.Text

/-- The number that a non-empty run of decimal digits names. -/
def natural? (cs : List Char) : Option Nat :=
  if cs ≠ [] ∧ cs.all Char.isDigit then some (Nat.ofDigitChars 10 cs 0) else none

/-- Reading a number's digits gives the number. -/
theorem natural?_toDigits (n : Nat) : natural? (Nat.toDigits 10 n) = some n := by
  have hd : (Nat.toDigits 10 n).all Char.isDigit = true :=
    List.all_eq_true.2 fun c hc => Nat.isDigit_of_mem_toDigits (by decide) (by decide) hc
  simp [natural?, hd, Nat.toDigits_ne_nil, Nat.ofDigitChars_toDigits]

/-- Numbers with the same digits are equal. -/
theorem toDigits_inj {m n : Nat} (h : Nat.toDigits 10 m = Nat.toDigits 10 n) : m = n := by
  have := natural?_toDigits m
  rw [h, natural?_toDigits] at this
  exact (Option.some.inj this).symm

/-- A text is told apart by what stands in front of and behind the last of some sign. -/
theorem append_last_inj {d : Char} {a b x y : List Char} (hx : d ∉ x) (hy : d ∉ y)
    (h : a ++ d :: x = b ++ d :: y) : a = b ∧ x = y := by
  rcases List.append_eq_append_iff.1 h with ⟨c, rfl, hc⟩ | ⟨c, rfl, hc⟩
  · cases c with
    | nil => exact ⟨(List.append_nil a).symm, (List.cons.inj hc).2⟩
    | cons e c => exact absurd (by simp [(List.cons.inj hc).2]) hx
  · cases c with
    | nil => exact ⟨List.append_nil b, (List.cons.inj hc).2.symm⟩
    | cons e c => exact absurd (by simp [(List.cons.inj hc).2]) hy

/-- No digit is another character. -/
theorem notMem_toDigits {c : Char} (hc : c.isDigit = false) (n : Nat) : c ∉ Nat.toDigits 10 n := by
  intro hmem
  rw [Nat.isDigit_of_mem_toDigits (by decide) (by decide) hmem] at hc
  cases hc

/-- Numbers behind a dash tell texts apart. -/
theorem dash_repr_inj {a b : String} {m n : Nat}
    (h : a ++ "-" ++ Nat.repr m = b ++ "-" ++ Nat.repr n) : m = n := by
  have hchars := congrArg String.toList h
  simp only [String.toList_append, Nat.repr, String.toList_ofList, List.append_assoc] at hchars
  exact toDigits_inj (append_last_inj (d := '-') (notMem_toDigits (by decide) m)
    (notMem_toDigits (by decide) n) hchars).2

/-- The number below `bound` that digits name, where one plus sign may stand in front. -/
def unsigned? (bound : Nat) (s : String) : Option Nat :=
  let digits := match s.toList with
    | '+' :: r => r
    | cs => cs
  (natural? digits).filter (· < bound)

/-- The digits of `n` in base sixteen, lower case. -/
def hex (n : Nat) : String := String.ofList (Nat.toDigits 16 n)

end StreamPipeline.Text
