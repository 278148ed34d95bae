import StreamPipeline.Digest

/-!
# Digests worked out

SHA-256 said on natural numbers below 2³², where words are added, shifted and combined bit by bit as
numbers are. It comes to the same digests (`sha256_eq_digest`), and a digest is worked out from it
in a proof.
-/

namespace StreamPipeline.Digest

/-- The eight chaining words as numbers. -/
structure Numbers where
  (a b c d e f g h : Nat)

/-- The numbers of the chaining words. -/
def Chain.numbers (s : Chain) : Numbers :=
  ⟨s.a.toNat, s.b.toNat, s.c.toNat, s.d.toNat, s.e.toNat, s.f.toNat, s.g.toNat, s.h.toNat⟩

/-- What `n` blocks of sixteen come to, each mixed in by `mix`. -/
def inBlocks {α σ : Type} (mix : σ → List α → σ) : Nat → List α → σ → σ
  | 0, _, s => s
  | n + 1, ws, s => inBlocks mix n (ws.drop 16) (mix s (ws.take 16))

namespace Numbers

/-- A number cut to the bits of a word. -/
def cut (n : Nat) : Nat := n % UInt32.size

/-- Rotation to the right. -/
def rotate (x n : Nat) : Nat := (x >>> n) ||| cut (x <<< (32 - n))

/-- Number by number addition. -/
def add (s t : Numbers) : Numbers :=
  ⟨cut (s.a + t.a), cut (s.b + t.b), cut (s.c + t.c), cut (s.d + t.d), cut (s.e + t.e),
    cut (s.f + t.f), cut (s.g + t.g), cut (s.h + t.h)⟩

/-- One round with the scheduled number `w` and the constant `k`. -/
def round (s : Numbers) (w k : Nat) : Numbers :=
  let big1 := rotate s.e 6 ^^^ rotate s.e 11 ^^^ rotate s.e 25
  let choice := (s.e &&& s.f) ^^^ ((UInt32.size - 1 - s.e) &&& s.g)
  let t₁ := cut (s.h + big1 + choice + k + w)
  let big0 := rotate s.a 2 ^^^ rotate s.a 13 ^^^ rotate s.a 22
  let majority := (s.a &&& s.b) ^^^ (s.a &&& s.c) ^^^ (s.b &&& s.c)
  ⟨cut (t₁ + (big0 + majority)), s.a, s.b, s.c, cut (s.d + t₁), s.e, s.f, s.g⟩

/-- The number that enters the window of the last sixteen scheduled numbers. -/
def next (window : List Nat) : Nat :=
  let w := fun i => window.getD i 0
  let small0 := rotate (w 1) 7 ^^^ rotate (w 1) 18 ^^^ (w 1 >>> 3)
  let small1 := rotate (w 14) 17 ^^^ rotate (w 14) 19 ^^^ (w 14 >>> 10)
  cut (w 0 + small0 + w 9 + small1)

/-- The rounds of one block, over the window of scheduled numbers. -/
def rounds : List Nat → List Nat → Numbers → Numbers
  | [], _, s => s
  | k :: ks, window, s =>
    rounds ks ((window.drop 1).take 15 ++ [next window]) (s.round (window.getD 0 0) k)

/-- One block mixed into the chaining numbers. -/
def block (s : Numbers) (ws : List Nat) : Numbers :=
  s.add (rounds (roundConstants.map UInt32.toNat) ws s)

/-- The digest of a message, worked out on numbers. -/
def digest (message : List UInt8) : String :=
  let ws := (words (padded message)).map UInt32.toNat
  let s := inBlocks block (ws.length / 16) ws Chain.initial.numbers
  String.join ([s.a, s.b, s.c, s.d, s.e, s.f, s.g, s.h].map fun n => hexWord (.ofNat n))

end Numbers

variable {s t : Chain} {w k : UInt32}

theorem toNat_rotate (x : UInt32) {n : UInt32} (hpos : 0 < n.toNat) (hn : n.toNat < 32) :
    (rotate x n).toNat = Numbers.rotate x.toNat n.toNat := by
  have hback : (32 - n).toNat = 32 - n.toNat := by
    rw [UInt32.toNat_sub_of_le _ _ (by rw [UInt32.le_iff_toNat_le]; exact Nat.le_of_lt hn)]
    rfl
  rw [rotate, Numbers.rotate, UInt32.toNat_or, UInt32.toNat_shiftRight, UInt32.toNat_shiftLeft,
    hback, Nat.mod_eq_of_lt hn, Nat.mod_eq_of_lt (show 32 - n.toNat < 32 by omega)]
  rfl

theorem numbers_add : (s.add t).numbers = s.numbers.add t.numbers := by
  simp [Chain.add, Chain.numbers, Numbers.add, Numbers.cut]

theorem numbers_round : (s.round w k).numbers = s.numbers.round w.toNat k.toNat := by
  simp [Chain.round, Chain.numbers, Numbers.round, Numbers.cut, toNat_rotate, UInt32.toNat_not]

theorem getD_map_toNat (window : Array UInt32) (i : Nat) :
    (window.toList.map UInt32.toNat).getD i 0 = (window.getD i 0).toNat := by
  simp only [List.getD_eq_getElem?_getD, List.getElem?_map, Array.getElem?_toList,
    Array.getD_eq_getD_getElem?]
  cases window[i]? <;> rfl

theorem toNat_nextWord (window : Array UInt32) :
    (nextWord window).toNat = Numbers.next (window.toList.map UInt32.toNat) := by
  simp only [Numbers.next, getD_map_toNat]
  simp [nextWord, Numbers.cut, toNat_rotate]

theorem numbers_rounds (ks : List UInt32) (window : Array UInt32) (s : Chain) :
    (rounds ks window s).numbers =
      Numbers.rounds (ks.map UInt32.toNat) (window.toList.map UInt32.toNat) s.numbers := by
  induction ks generalizing window s with
  | nil => rfl
  | cons k ks ih =>
      rw [rounds, ih, numbers_round, List.map_cons, Numbers.rounds, getD_map_toNat]
      congr 1
      simp [toNat_nextWord, List.extract_eq_take_drop, List.map_take]

theorem numbers_block (s : Chain) (ws : List UInt32) :
    (s.block ws).numbers = s.numbers.block (ws.map UInt32.toNat) := by
  rw [Chain.block, numbers_add, numbers_rounds]
  rfl

-- `blocks` cannot be unfolded: comparing its last argument before and after a step takes all rounds
theorem blocks_eq_inBlocks (n : Nat) (ws : List UInt32) (s : Chain) :
    blocks n ws s = inBlocks Chain.block n ws s := by
  delta blocks inBlocks
  rfl

theorem numbers_inBlocks (n : Nat) (ws : List UInt32) (s : Chain) :
    (inBlocks Chain.block n ws s).numbers =
      inBlocks Numbers.block n (ws.map UInt32.toNat) s.numbers := by
  induction n generalizing ws s with
  | zero => rfl
  | succ n ih => rw [inBlocks, ih, inBlocks, numbers_block, List.map_drop, List.map_take]

/-- **The digest of a message is what numbers come to.** -/
theorem sha256_eq_digest (message : List UInt8) : sha256 message = Numbers.digest message := by
  have hchain := numbers_inBlocks ((words (padded message)).length / 16) (words (padded message))
    Chain.initial
  simp only [Numbers.digest, List.length_map, ← hchain, sha256, chain, blocks_eq_inBlocks]
  simp [Chain.numbers]

/-! ### Texts -/

theorem toList_loop (bs : ByteArray) (i : Nat) (r : List UInt8) :
    ByteArray.toList.loop bs i r = r.reverse ++ bs.data.toList.drop i := by
  unfold ByteArray.toList.loop
  split
  · rename_i hi
    have hi' : i < bs.data.toList.length := hi
    rw [toList_loop bs (i + 1), List.drop_eq_getElem_cons hi']
    simp [ByteArray.get!, getElem!_pos bs.data i hi]
  · rename_i hi
    have hi' : bs.data.toList.length ≤ i := Nat.le_of_not_lt hi
    rw [List.drop_eq_nil_of_le hi', List.append_nil]
termination_by bs.size - i

/-- The bytes of a text are those of its characters. -/
theorem toList_toUTF8 (cs : List Char) :
    (String.ofList cs).toUTF8.toList = cs.flatMap String.utf8EncodeChar := by
  show ByteArray.toList.loop cs.utf8Encode 0 [] = _
  rw [toList_loop]
  simp [List.utf8Encode]

end StreamPipeline.Digest
