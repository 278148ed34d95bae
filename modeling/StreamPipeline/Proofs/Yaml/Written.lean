import StreamPipeline.Proofs.Yaml.Literal
import StreamPipeline.Proofs.Yaml.Quoted

/-!
# The text of a scalar

Whatever text a scalar says, it is written in printable characters (`printable_scalar`) and starts
with one that shows (`scalar_cons`). A key that may stand on the line of its value is written
within one line, and within the length at which a colon still finds it (`scalar_simpleKey`).
-/

namespace StreamPipeline.Yaml

/-! ### What the styles promise -/

section

variable {cs : List Char}

theorem of_styleOf_plain (h : styleOf cs = .plain) :
    saysOther cs = false ∧ plainAllowed cs = true := by
  unfold styleOf quotedStyle at h
  split at h
  · split at h <;> cases h
  · split at h
    · split at h <;> cases h
    · rename_i hn
      simpa using hn

theorem of_styleOf_single (h : styleOf cs = .single) :
    singleAllowed cs = true ∧ '\n' ∉ cs := by
  unfold styleOf quotedStyle at h
  split at h
  · split at h <;> cases h
  · rename_i hn
    split at h
    · split at h
      · rename_i hs
        exact ⟨hs, by simpa using hn⟩
      · cases h
    · cases h

theorem of_styleOf_literal (h : styleOf cs = .literal) : Printable cs ∧ '\n' ∈ cs := by
  unfold styleOf quotedStyle at h
  split at h
  · rename_i hn
    split at h
    · rename_i hl
      simp only [literalAllowed, Bool.and_eq_true] at hl
      exact ⟨.of_all hl.1.1, by simpa using hn⟩
    · cases h
  · split at h
    · split at h <;> cases h
    · cases h

end

/-! ### Plain text -/

/-- The characters with which no plain scalar starts. -/
theorem of_startsPlain {cs : List Char} (h : startsPlain cs = true) : ∃ c r, cs = c :: r ∧
    isIndicator c = false ∧ ((c = '?' ∨ c = ':' ∨ c = '-') → isGap (r.headD finish) = false) ∧
    cs.take 3 ≠ ['-', '-', '-'] ∧ cs.take 3 ≠ ['.', '.', '.'] := by
  cases cs with
  | nil => cases h
  | cons c r =>
      simp only [startsPlain, Bool.and_eq_true, Bool.not_eq_true', Bool.and_eq_false_iff,
        Bool.or_eq_false_iff, beq_eq_false_iff_ne, List.contains_eq_mem, decide_eq_false_iff_not,
        List.mem_cons, List.not_mem_nil, or_false, not_or] at h
      obtain ⟨⟨hi, hsign⟩, hdash, hdots⟩ := h
      refine ⟨c, r, rfl, hi, fun hc => hsign.resolve_left fun hn => ?_, hdash, hdots⟩
      exact hc.elim hn.1.1 fun hc => hc.elim hn.1.2 hn.2

/-! ### Quoted text -/

theorem printable_singleBody (n : Nat) {cs : List Char} (hcs : Printable cs)
    (afterBreak : Bool) : Printable (singleBody n afterBreak cs) := by
  induction cs generalizing afterBreak with
  | nil => unfold singleBody; split <;> simp [printable_spaces]
  | cons c cs ih =>
      obtain ⟨hc, hrest⟩ := Printable.cons_iff.1 hcs
      have hq : isPrintable '\'' = true := by decide
      unfold singleBody
      split
      · simp only [Printable.append_iff, Printable.cons_iff, hc, ih hrest, and_self, and_true]
        split <;> simp
      · simp only [Printable.append_iff, ih hrest, and_true]
        exact ⟨by split <;> simp [printable_spaces], by split <;> simp [hq, hc]⟩

/-- Of a text without breaks, single quotes keep every character, and double the quotes. -/
theorem singleBody_line (n : Nat) {cs : List Char} (hcs : ∀ c ∈ cs, isBreak c = false) :
    (∀ d ∈ singleBody n false cs, isBreak d = false) ∧
      (singleBody n false cs).length ≤ 2 * cs.length := by
  induction cs with
  | nil => simp [singleBody]
  | cons c cs ih =>
      have hq : isBreak '\'' = false := by decide
      have hc := hcs c (by simp)
      obtain ⟨hline, hlength⟩ := ih fun d hd => hcs d (by simp [hd])
      unfold singleBody
      rw [if_neg (by simp [hc])]
      simp only [List.mem_append, Bool.false_eq_true, if_false, List.nil_append,
        List.length_append, List.length_cons]
      refine ⟨fun d hd => hd.elim (fun hd => ?_) (hline d), ?_⟩
      · split at hd <;> simp_all
      · split <;> simp <;> omega

theorem length_doubleChar_le (c : Char) : (doubleChar c).length ≤ 6 := by
  unfold doubleChar
  split
  · rename_i h
    have low : ∀ n < 160, (escape (Char.ofNat n)).length ≤ 6 := by decide +kernel
    have high : ∀ n ∈ escapedBeyond, (escape (Char.ofNat n)).length ≤ 6 := by decide +kernel
    rw [← Char.ofNat_toNat c]
    exact (escaped_cases h).elim (low _) (high _)
  · simp

theorem length_flatMap_doubleChar_le (cs : List Char) :
    (cs.flatMap doubleChar).length ≤ 6 * cs.length := by
  induction cs with
  | nil => simp
  | cons c cs ih =>
      have := length_doubleChar_le c
      simp only [List.flatMap_cons, List.length_append, List.length_cons]
      omega

/-- A text between quotes is its opening quote and what is read back behind it. -/
theorem scalar_quoted (n : Nat) (cs : List Char)
    (h : styleOf cs = .single ∨ styleOf cs = .double) :
    ∃ q body, scalar n cs = q :: (body ++ [q]) ∧ (q = '\'' ∨ q = '"') ∧ Printable body ∧
      (0 < n → ∀ {m : Mark}, 0 < m.column → ∀ {tail : List Char}, Printable tail →
        (∀ c ∈ tail.head?, c ≠ '\'') → quotedScalar (q == '"') (cells m (body ++ q :: tail)) =
          some (String.ofList cs, cells (m.along (body ++ [q])) tail)) := by
  rcases h with h | h
  · obtain ⟨hs, hnl⟩ := of_styleOf_single h
    have hp : Printable cs := by
      simp only [singleAllowed, Bool.and_eq_true] at hs
      exact .of_all hs.1.1
    exact ⟨'\'', singleBody n false cs, by simp [scalar, h], .inl rfl,
      printable_singleBody n hp false,
      fun hn _ hm _ htail hquote => quotedScalar_single hs hnl hn hm htail hquote⟩
  · exact ⟨'"', cs.flatMap doubleChar, by simp [scalar, h], .inr rfl,
      (flatMap_doubleChar_line cs).1, fun _ _ hm _ _ _ => quotedScalar_double cs hm⟩

/-! ### Literal text -/

theorem printable_literalBody (n : Nat) {cs : List Char} (hcs : Printable cs) (atStart : Bool) :
    Printable (literalBody n atStart cs) := by
  induction cs generalizing atStart with
  | nil => exact .nil
  | cons c cs ih =>
      obtain ⟨hc, hrest⟩ := Printable.cons_iff.1 hcs
      unfold literalBody
      split
      · exact Printable.cons_iff.2 ⟨hc, ih hrest true⟩
      · simp only [Printable.append_iff, Printable.cons_iff, hc, ih hrest, and_true]
        split <;> simp [printable_spaces]

theorem printable_literalHeader (cs : List Char) : Printable (literalHeader cs) := by
  have h : ∀ hint (chomp : Chomping), Printable ('|' :: (hintText hint ++ chomp.text)) := by
    intro hint chomp
    refine .of_all ?_
    cases hint <;> cases chomp <;> decide
  rw [literalHeader_eq]
  exact h _ _

/-! ### Scalars -/

theorem printable_scalar (n : Nat) (cs : List Char) : Printable (scalar n cs) := by
  cases h : styleOf cs with
  | plain =>
      obtain ⟨-, -, -, -, hp, -⟩ := of_plainAllowed (of_styleOf_plain h).2
      simpa [scalar, h] using hp
  | literal =>
      simp [scalar, h, printable_literalHeader, printable_literalBody n (of_styleOf_literal h).1]
  | single | double =>
      obtain ⟨q, body, heq, hq, hp, -⟩ := scalar_quoted n cs (by simp [h])
      have hq : isPrintable q = true := by rcases hq with rfl | rfl <;> decide
      simp [heq, hq, hp]

/-- A scalar starts with a character that shows. -/
theorem scalar_cons (n : Nat) (cs : List Char) :
    ∃ c r, scalar n cs = c :: r ∧ c ≠ ' ' ∧ isBreak c = false ∧ c ≠ '#' := by
  cases h : styleOf cs with
  | plain =>
      obtain ⟨hstarts, -, -, hline, -, hspace, -⟩ := of_plainAllowed (of_styleOf_plain h).2
      obtain ⟨c, r, rfl, hi, -⟩ := of_startsPlain hstarts
      refine ⟨c, r, by simp [scalar, h], hspace c rfl, hline c (by simp), ?_⟩
      rintro rfl
      cases hi
  | literal =>
      exact ⟨'|', (literalHeader cs).tail ++ '\n' :: literalBody n true cs,
        by simp [scalar, h, literalHeader], by decide⟩
  | single | double =>
      obtain ⟨q, body, heq, hq, -⟩ := scalar_quoted n cs (by simp [h])
      exact ⟨q, _, heq, by rcases hq with rfl | rfl <;> decide⟩

theorem solid_scalar (n : Nat) (cs : List Char) {tail : List Char} (htail : Printable tail) :
    Solid (scalar n cs ++ tail) := by
  refine ⟨Printable.append_iff.2 ⟨printable_scalar n cs, htail⟩, ?_⟩
  obtain ⟨c, r, heq, hc⟩ := scalar_cons n cs
  intro d hd
  rw [heq] at hd
  cases hd
  exact hc

/-- Whether a scalar stands in one piece with what follows it in its line. -/
theorem scalarLine_inline (n : Nat) (cs : List Char) (h : styleOf cs ≠ .literal) :
    scalarLine n cs = scalar n cs ++ ['\n'] := by
  simp [scalarLine, h]

theorem scalarLine_literal (n : Nat) {cs : List Char} (h : styleOf cs = .literal) :
    scalarLine n cs = literalText n cs := by
  simp only [scalarLine, h, scalar, literalText, literalLines, beq_self_eq_true, Bool.true_and]
  split <;> simp

theorem printable_scalarLine (n : Nat) (cs : List Char) : Printable (scalarLine n cs) := by
  unfold scalarLine
  dsimp only
  split <;> simp [printable_scalar]

theorem solid_scalarLine (n : Nat) (cs : List Char) {tail : List Char} (htail : Printable tail) :
    Solid (scalarLine n cs ++ tail) := by
  unfold scalarLine
  dsimp only
  split
  · exact solid_scalar n cs htail
  · rw [List.append_assoc]
    exact solid_scalar n cs (by simpa using htail)

/-! ### Simple keys -/

section

variable {k : String}

/-- No character takes less than a byte. -/
theorem length_le_utf8ByteSize (cs : List Char) : cs.length ≤ (String.ofList cs).utf8ByteSize := by
  induction cs with
  | nil => simp
  | cons c cs ih =>
      have hc := c.utf8Size_pos
      rw [← List.singleton_append, String.ofList_append, String.utf8ByteSize_append,
        ← String.singleton_eq_ofList, String.utf8ByteSize_singleton]
      simp only [List.singleton_append, List.length_cons]
      omega

theorem of_isSimpleKey (h : isSimpleKey k = true) :
    (∀ c ∈ k.toList, isBreak c = false) ∧ k.toList.length ≤ 128 := by
  simp only [isSimpleKey, Bool.and_eq_true, decide_eq_true_eq, Bool.not_eq_true',
    List.any_eq_false, Bool.not_eq_true] at h
  have hsize := length_le_utf8ByteSize k.toList
  rw [String.ofList_toList] at hsize
  exact ⟨h.2, Nat.le_trans hsize h.1⟩

/-- A simple key is a scalar of one line, of bounded length. -/
theorem scalar_simpleKey (n : Nat) (h : isSimpleKey k = true) :
    styleOf k.toList ≠ .literal ∧ (∀ c ∈ scalar n k.toList, isBreak c = false) ∧
      (scalar n k.toList).length ≤ 1024 := by
  obtain ⟨hline, hlength⟩ := of_isSimpleKey h
  have hquote : isBreak '\'' = false ∧ isBreak '"' = false := by decide
  cases hstyle : styleOf k.toList with
  | plain =>
      refine ⟨by simp, ?_, ?_⟩
      · simpa [scalar, hstyle] using hline
      · simp only [scalar, hstyle]
        omega
  | literal => exact absurd (hline '\n' (of_styleOf_literal hstyle).2) (by decide)
  | single =>
      obtain ⟨hbody, hsize⟩ := singleBody_line n hline
      refine ⟨by simp, ?_, ?_⟩
      · simpa [scalar, hstyle, or_imp, forall_and, hquote] using hbody
      · simp only [scalar, hstyle, List.length_cons, List.length_append, List.length_nil]
        omega
  | double =>
      have hsize := length_flatMap_doubleChar_le k.toList
      refine ⟨by simp, ?_, ?_⟩
      · simp only [scalar, hstyle, List.mem_cons, List.mem_append, List.not_mem_nil, or_false]
        rintro c (rfl | hc | rfl)
        · exact hquote.2
        · exact (flatMap_doubleChar_line _).2 c hc
        · exact hquote.2
      · simp only [scalar, hstyle, List.length_cons, List.length_append, List.length_nil]
        omega

end

end StreamPipeline.Yaml
