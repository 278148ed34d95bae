import Mathlib.Data.List.Basic
import Mathlib.Data.List.TakeWhile
import StreamPipeline.Proofs.Outcome
import StreamPipeline.SemVer
import StreamPipeline.Text.Blank

/-!
# Written versions

Numbers without padding, and identifiers without dots that are checked, are all that is ever read of
a version (`readable_of_parse`). Such a version is read back from its written form (`parse_render`),
which has no blanks (`trim_render`).
-/

namespace StreamPipeline.SemVer

/-! ### Runs of characters -/

/-- A run of characters ends where one stands that does not belong to it. -/
theorem span_append {p : Char → Bool} {cs r : List Char} (hcs : ∀ c ∈ cs, p c = true)
    (hr : ∀ c ∈ r.head?, p c = false) :
    (cs ++ r).takeWhile p = cs ∧ (cs ++ r).dropWhile p = r := by
  rw [List.takeWhile_append_of_pos hcs, List.dropWhile_append_of_pos hcs]
  cases r with
  | nil => simp
  | cons c r => simp [hr c rfl]

/-! ### Numbers -/

theorem lt_bound_of_number {p : Place} {cs r : List Char} {n : Nat}
    (h : number p cs = .ok (n, r)) : n < bound := by
  simp only [number] at h
  split at h
  · cases h
  · split at h
    · cases h
    · split at h
      · cases h
      · cases h
        omega

/-- The digits of a number do not start with a zero, unless it is zero. -/
theorem head?_toDigits {n : Nat} (hn : n ≠ 0) : (Nat.toDigits 10 n).head? ≠ some '0' := by
  induction n using Nat.strongRecOn with
  | ind n ih =>
      rw [Nat.toDigits_eq_if (by decide)]
      split
      · rename_i hsmall
        intro h
        have hzero := (Nat.digitChar_eq_zero (n := n)).1 (Option.some.inj h)
        exact hn hzero
      · rename_i hlarge
        have hdiv := ih (n / 10) (by omega) (by omega)
        rwa [List.head?_append_of_ne_nil _ Nat.toDigits_ne_nil]

theorem not_padded_toDigits (n : Nat) : padded (Nat.toDigits 10 n) = false := by
  rcases Nat.eq_zero_or_pos n with rfl | hn
  · decide
  · simp [padded, head?_toDigits (Nat.ne_of_gt hn)]

/-- A number is read where no digit follows it. -/
theorem number_toDigits (p : Place) {n : Nat} (hn : n < bound) {r : List Char}
    (hr : ∀ c ∈ r.head?, c.isDigit = false) :
    number p (Nat.toDigits 10 n ++ r) = .ok (n, r) := by
  have hdigits : ∀ c ∈ Nat.toDigits 10 n, c.isDigit = true := fun c hc =>
    Nat.isDigit_of_mem_toDigits (by decide) (by decide) hc
  obtain ⟨htake, hdrop⟩ := span_append hdigits hr
  unfold number
  rw [htake, hdrop]
  simp [Nat.toDigits_ne_nil, not_padded_toDigits, Nat.ofDigitChars_toDigits, hn]

/-! ### Identifiers -/

/-- Whether a character belongs to identifiers or stands between them. -/
def isPartChar (c : Char) : Bool := isIdentifierChar c || c == '.'

/-- Identifiers as they are read. -/
structure Identifiers (p : Place) (ids : List (List Char)) : Prop where
  ne_nil : ids ≠ []
  chars : ∀ id ∈ ids, ∀ c ∈ id, isIdentifierChar c = true
  checked : ids.forM (checkIdentifier p) = .ok ()

theorem segments_ne_nil (cs : List Char) : segments cs ≠ [] := by
  cases cs with
  | nil => simp [segments]
  | cons c cs =>
      unfold segments
      split
      · simp
      · split <;> simp

/-- The pieces of a text hold what it holds, but for the dots. -/
theorem mem_of_segments {cs id : List Char} (hid : id ∈ segments cs) :
    ∀ c ∈ id, c ∈ cs ∧ c ≠ '.' := by
  induction cs generalizing id with
  | nil =>
      obtain rfl := List.mem_singleton.1 hid
      nofun
  | cons d cs ih =>
      unfold segments at hid
      split at hid
      · rcases List.mem_cons.1 hid with rfl | hid
        · nofun
        · exact fun c hc => (ih hid c hc).imp_left (List.mem_cons_of_mem d)
      · rename_i hd
        split at hid
        · rename_i hnil
          exact absurd hnil (segments_ne_nil cs)
        · rename_i s ss hss
          intro c hc
          rcases List.mem_cons.1 hid with rfl | hid
          · rcases List.mem_cons.1 hc with rfl | hc
            · exact ⟨List.mem_cons_self, hd⟩
            · exact (ih (hss ▸ List.mem_cons_self) c hc).imp_left (List.mem_cons_of_mem d)
          · exact (ih (hss ▸ List.mem_cons_of_mem s hid) c hc).imp_left (List.mem_cons_of_mem d)

theorem segments_of_notMem {cs : List Char} (h : '.' ∉ cs) : segments cs = [cs] := by
  induction cs with
  | nil => rfl
  | cons c cs ih =>
      obtain ⟨hc, hcs⟩ := List.ne_and_not_mem_of_not_mem_cons h
      rw [segments, if_neg (Ne.symm hc), ih hcs]

theorem segments_append_dot {cs r : List Char} (h : '.' ∉ cs) :
    segments (cs ++ '.' :: r) = cs :: segments r := by
  induction cs with
  | nil => rfl
  | cons c cs ih =>
      obtain ⟨hc, hcs⟩ := List.ne_and_not_mem_of_not_mem_cons h
      rw [List.cons_append, segments, if_neg (Ne.symm hc), ih hcs]

/-- Identifiers between dots are found again. -/
theorem segments_intercalate {ids : List (List Char)} (hne : ids ≠ [])
    (hdot : ∀ id ∈ ids, '.' ∉ id) : segments (List.intercalate ['.'] ids) = ids := by
  induction ids with
  | nil => exact absurd rfl hne
  | cons id ids ih =>
      cases ids with
      | nil => exact List.intercalate_singleton ▸ segments_of_notMem (hdot id List.mem_cons_self)
      | cons id' ids =>
          rw [List.intercalate_cons_cons, List.append_assoc, List.singleton_append,
            segments_append_dot (hdot id List.mem_cons_self),
            ih (by simp) fun i hi => hdot i (List.mem_cons_of_mem id hi)]

theorem isPartChar_of_mem_intercalate {ids : List (List Char)}
    (hids : ∀ id ∈ ids, ∀ c ∈ id, isIdentifierChar c = true) :
    ∀ c ∈ List.intercalate ['.'] ids, isPartChar c = true := by
  induction ids with
  | nil => nofun
  | cons id ids ih =>
      have hid : ∀ c ∈ id, isPartChar c = true := fun c hc => by
        simp [isPartChar, hids id List.mem_cons_self c hc]
      cases ids with
      | nil => simpa using hid
      | cons id' ids =>
          have hrest := ih fun i hi => hids i (List.mem_cons_of_mem id hi)
          rw [List.intercalate_cons_cons]
          simp only [List.mem_append, List.mem_singleton]
          rintro c ((hc | rfl) | hc)
          · exact hid c hc
          · rfl
          · exact hrest c hc

theorem identifiers_eq_ok {p : Place} {cs r : List Char} {ids : List (List Char)}
    (h : identifiers p cs = .ok (ids, r)) : Identifiers p ids := by
  unfold identifiers at h
  obtain ⟨_, hchecked, h⟩ := Except.bind_eq_ok_iff.1 h
  cases h
  refine ⟨segments_ne_nil _, fun id hid c hc => ?_, hchecked⟩
  obtain ⟨hmem, hdot⟩ := mem_of_segments hid c hc
  have hinside : isPartChar c = true := List.mem_takeWhile_imp hmem
  simpa [isPartChar, hdot] using hinside

/-- Identifiers are read where nothing follows that could belong to them. -/
theorem identifiers_intercalate {p : Place} {ids : List (List Char)} (h : Identifiers p ids)
    {r : List Char} (hr : ∀ c ∈ r.head?, isPartChar c = false) :
    identifiers p (List.intercalate ['.'] ids ++ r) = .ok (ids, r) := by
  obtain ⟨htake, hdrop⟩ := span_append (isPartChar_of_mem_intercalate h.chars) hr
  have hdot : ∀ id ∈ ids, '.' ∉ id := fun id hid hmem =>
    absurd (h.chars id hid '.' hmem) (by decide)
  show (do
    (segments ((List.intercalate ['.'] ids ++ r).takeWhile isPartChar)).forM (checkIdentifier p)
    return (segments ((List.intercalate ['.'] ids ++ r).takeWhile isPartChar),
      (List.intercalate ['.'] ids ++ r).dropWhile isPartChar)) = _
  rw [htake, hdrop, segments_intercalate h.ne_nil hdot, h.checked]
  rfl

/-! ### Parts -/

/-- A part that is absent or holds identifiers. -/
def IsPart (p : Place) (ids : List (List Char)) : Prop := ids = [] ∨ Identifiers p ids

theorem isPart_of_part {p : Place} {mark : Char} {cs r : List Char}
    {found : Option (List (List Char))} (h : part p mark cs = .ok (found, r)) :
    IsPart p (found.getD []) := by
  unfold part at h
  split at h
  · split at h
    · obtain ⟨⟨ids, r'⟩, hids, h⟩ := Except.map_eq_ok_iff.1 h
      cases h
      exact .inr (identifiers_eq_ok hids)
    · cases h
      exact .inl rfl
  · cases h
    exact .inl rfl

/-- A part is read where nothing follows that could belong to it. -/
theorem part_render {p : Place} {mark : Char} {ids : List (List Char)} (h : IsPart p ids)
    {r : List Char} (hr : ∀ c ∈ r.head?, isPartChar c = false ∧ c ≠ mark) :
    ∃ found, part p mark (renderPart mark ids ++ r) = .ok (found, r) ∧ found.getD [] = ids := by
  rcases h with rfl | h
  · cases r with
    | nil => exact ⟨none, rfl, rfl⟩
    | cons c r => exact ⟨none, by simp [part, renderPart, (hr c rfl).2], rfl⟩
  · refine ⟨some ids, ?_, rfl⟩
    have hread := identifiers_intercalate h fun c hc => (hr c hc).1
    cases ids with
    | nil => exact absurd rfl h.ne_nil
    | cons id ids => simp only [part, renderPart, List.cons_append, if_pos, hread, Except.map]

/-! ### Versions -/

/-- Numbers and parts that can be read. -/
structure Readable (v : SemVer) : Prop where
  major_lt : v.major < bound
  minor_lt : v.minor < bound
  patch_lt : v.patch < bound
  pre : IsPart .pre v.pre
  build : IsPart .build v.build

theorem readable_of_parse {s : String} {v : SemVer} (h : parse s = .ok v) : v.Readable := by
  unfold parse at h
  split at h
  · cases h
  obtain ⟨⟨major, r₁⟩, hmajor, h⟩ := Except.bind_eq_ok_iff.1 h
  obtain ⟨r₂, -, h⟩ := Except.bind_eq_ok_iff.1 h
  obtain ⟨⟨minor, r₃⟩, hminor, h⟩ := Except.bind_eq_ok_iff.1 h
  obtain ⟨r₄, -, h⟩ := Except.bind_eq_ok_iff.1 h
  obtain ⟨⟨patch, r₅⟩, hpatch, h⟩ := Except.bind_eq_ok_iff.1 h
  obtain ⟨⟨pre, r₆⟩, hpre, h⟩ := Except.bind_eq_ok_iff.1 h
  obtain ⟨⟨build, r₇⟩, hbuild, h⟩ := Except.bind_eq_ok_iff.1 h
  dsimp only at h
  split at h
  · cases h
    exact ⟨lt_bound_of_number hmajor, lt_bound_of_number hminor, lt_bound_of_number hpatch,
      isPart_of_part hpre, isPart_of_part hbuild⟩
  · cases h

/-- A part starts with its sign. -/
theorem eq_of_mem_head?_renderPart {mark : Char} {ids : List (List Char)} :
    ∀ c ∈ (renderPart mark ids).head?, c = mark := by
  cases ids with
  | nil => nofun
  | cons id ids => exact fun c hc => (Option.some.inj hc).symm

/-- **A version is read back from its written form.** -/
theorem parse_render {v : SemVer} (h : v.Readable) : parse v.render = .ok v := by
  have hbuild : ∀ c ∈ (renderPart '+' v.build).head?, isPartChar c = false ∧ c ≠ '-' :=
    fun c hc => by
      obtain rfl := eq_of_mem_head?_renderPart c hc
      decide
  have hpre : ∀ c ∈ (renderPart '-' v.pre ++ renderPart '+' v.build).head?,
      c.isDigit = false := by
    intro c hc
    rw [List.head?_append, Option.mem_def, Option.or_eq_some_iff] at hc
    rcases hc with hc | ⟨-, hc⟩
    · exact eq_of_mem_head?_renderPart c hc ▸ by decide
    · exact eq_of_mem_head?_renderPart c hc ▸ by decide
  obtain ⟨pre, hreadPre, hpreEq⟩ := part_render h.pre hbuild
  obtain ⟨build, hreadBuild, hbuildEq⟩ : ∃ found,
      part .build '+' (renderPart '+' v.build ++ []) = .ok (found, []) ∧ found.getD [] = v.build :=
    part_render h.build nofun
  have hchars : v.render.toList = _ := String.toList_ofList
  unfold parse
  rw [hchars, renderChars, if_neg (by simp [Nat.toDigits_ne_nil])]
  refine Except.bind_eq_ok_iff.2
    ⟨_, number_toDigits .major h.major_lt (r := '.' :: _) (by simp [Char.isDigit]), ?_⟩
  refine Except.bind_eq_ok_iff.2 ⟨_, rfl, Except.bind_eq_ok_iff.2
    ⟨_, number_toDigits .minor h.minor_lt (r := '.' :: _) (by simp [Char.isDigit]), ?_⟩⟩
  refine Except.bind_eq_ok_iff.2 ⟨_, rfl, Except.bind_eq_ok_iff.2
    ⟨_, number_toDigits .patch h.patch_lt hpre, ?_⟩⟩
  refine Except.bind_eq_ok_iff.2 ⟨_, hreadPre, Except.bind_eq_ok_iff.2 ⟨(build, []), ?_, ?_⟩⟩
  · simpa using hreadBuild
  · show (.ok _ : Except Fault SemVer) = _
    rw [hpreEq, hbuildEq]

/-! ### Blanks -/

theorem isBlank_of_isPartChar {c : Char} (h : isPartChar c = true) : Text.isBlank c = false := by
  have hbounds : 45 ≤ c.toNat ∧ c.toNat ≤ 122 := by
    simp only [isPartChar, isIdentifierChar, Bool.or_eq_true, beq_iff_eq] at h
    rcases h with ((hdigit | halpha) | rfl) | rfl
    · have hbetween : 48 ≤ c.toNat ∧ c.toNat ≤ 57 :=
        (Bool.and_eq_true_iff.1 hdigit).imp of_decide_eq_true of_decide_eq_true
      omega
    · rcases Bool.or_eq_true_iff.1 halpha with hupper | hlower
      · have hbetween : 65 ≤ c.toNat ∧ c.toNat ≤ 90 := of_decide_eq_true hupper
        omega
      · have hbetween : 97 ≤ c.toNat ∧ c.toNat ≤ 122 :=
          (Bool.and_eq_true_iff.1 hlower).imp of_decide_eq_true of_decide_eq_true
        omega
    · decide
    · decide
  simp [Text.isBlank]
  omega

theorem isBlank_of_mem_renderPart {p : Place} {mark : Char} {ids : List (List Char)}
    (h : IsPart p ids) (hmark : Text.isBlank mark = false) :
    ∀ c ∈ renderPart mark ids, Text.isBlank c = false := by
  cases ids with
  | nil => nofun
  | cons id ids =>
      have hids := h.resolve_left (by simp)
      exact List.forall_mem_cons.2 ⟨hmark, fun c hc =>
        isBlank_of_isPartChar (isPartChar_of_mem_intercalate hids.chars c hc)⟩

/-- Nothing is trimmed from a text without blanks. -/
theorem trimChars_eq_self {cs : List Char} (h : ∀ c ∈ cs, Text.isBlank c = false) :
    Text.trimChars cs = cs := by
  have hdrop : ∀ l : List Char, (∀ c ∈ l, Text.isBlank c = false) →
      l.dropWhile Text.isBlank = l := fun l hl =>
    List.dropWhile_eq_self_iff.2 fun hpos => by simp [hl _ (List.getElem_mem hpos)]
  rw [Text.trimChars, hdrop cs h, hdrop _ fun c hc => h c (List.mem_reverse.1 hc),
    List.reverse_reverse]

/-- The written form of a version is all between its blanks. -/
theorem trim_render {v : SemVer} (h : v.Readable) : Text.trim v.render = v.render := by
  have hdigit : ∀ n, ∀ c ∈ Nat.toDigits 10 n, Text.isBlank c = false := fun n c hc => by
    have hc := Nat.isDigit_of_mem_toDigits (by decide) (by decide) hc
    exact isBlank_of_isPartChar (by simp [isPartChar, isIdentifierChar, hc])
  have hall : ∀ c ∈ v.renderChars, Text.isBlank c = false := by
    have hdot : Text.isBlank '.' = false := by decide
    simp only [renderChars, List.forall_mem_append, List.forall_mem_cons]
    exact ⟨hdigit _, hdot, hdigit _, hdot, hdigit _, isBlank_of_mem_renderPart h.pre (by decide),
      isBlank_of_mem_renderPart h.build (by decide)⟩
  rw [Text.trim, render, String.toList_ofList, trimChars_eq_self hall]

end StreamPipeline.SemVer
