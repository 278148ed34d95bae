import StreamPipeline.Proofs.Yaml.Tree
import StreamPipeline.Yaml.Node

/-!
# The node of a written tree

`Tree.node` is what a tree says once it has been written and read: the same texts, lists and maps,
where a text remembers whether it stood without quotes. The tokens of a tree are arranged as its
node, whatever tokens follow (`arranges`), and that node makes a document (`Document.of?_node`).
-/

namespace StreamPipeline.Yaml

/-! ### Nodes -/

/-- A written text. -/
def textNode {κ : Type} (s : String) : Node κ := .scalar none (styleOf s.toList == .plain) s

mutual

/-- The node of a tree. -/
def Tree.node {κ : Type} : Tree → Node κ
  | .text s => textNode s
  | .list ts => .list none (itemNodes ts)
  | .map es => .map none (entryNodes es)

/-- The nodes of the items of a list. -/
def itemNodes {κ : Type} : List Tree → List (Node κ)
  | [] => []
  | t :: r => t.node :: itemNodes r

/-- The nodes of the entries of a map. -/
def entryNodes {κ : Type} : List (String × Tree) → List (Node κ × Node κ)
  | [] => []
  | (k, t) :: r => (textNode k, t.node) :: entryNodes r

end

theorem itemNodes_eq_map {κ : Type} (ts : List Tree) :
    (itemNodes ts : List (Node κ)) = ts.map Tree.node := by
  induction ts with
  | nil => rfl
  | cons t r ih => rw [itemNodes, ih, List.map_cons]

theorem entryNodes_eq_map {κ : Type} (es : List (String × Tree)) :
    (entryNodes es : List (Node κ × Node κ)) = es.map fun e => (textNode e.1, e.2.node) := by
  induction es with
  | nil => rfl
  | cons e r ih =>
      obtain ⟨k, t⟩ := e
      rw [entryNodes, ih, List.map_cons]

/-! ### Steps of the reader -/

section

variable {fuel : Nat} {handles : Handles} {inBlock loose : Bool} {r : List Token}

theorem node_scalar (isPlain : Bool) (s : String) :
    node (fuel + 1) handles inBlock loose (.scalar isPlain s :: r) =
      some (.scalar none isPlain s, r) := by
  simp [node, properties?]

theorem node_emptyList :
    node (fuel + 2) handles inBlock loose (.flowListStart :: .flowListEnd :: r) =
      some (.list none [], r) := by
  simp [node, properties?, flowItems]

theorem node_emptyMap :
    node (fuel + 2) handles inBlock loose (.flowMapStart :: .flowMapEnd :: r) =
      some (.map none [], r) := by
  simp [node, properties?, flowEntries]

theorem node_blockList :
    node (fuel + 1) handles true loose (.blockListStart :: r) =
      (blockItems fuel handles r).map fun (l, r) => (.list none l, r) := by
  cases h : blockItems fuel handles r <;> simp [node, properties?, h]

theorem node_blockMap :
    node (fuel + 1) handles true loose (.blockMapStart :: r) =
      (blockEntries fuel handles r).map fun (l, r) => (.map none l, r) := by
  cases h : blockEntries fuel handles r <;> simp [node, properties?, h]

theorem node_looseList :
    node (fuel + 1) handles inBlock true (.blockEntry :: r) =
      (looseItems fuel handles (.blockEntry :: r)).map fun (l, r) => (.list none l, r) := by
  cases h : looseItems fuel handles (.blockEntry :: r) <;> simp [node, properties?, h]

end

/-- The tokens with which a written tree starts. -/
def Token.startsTree (loose : Bool) : Token → Bool
  | .scalar .. | .flowListStart | .flowMapStart | .blockListStart | .blockMapStart => true
  | .blockEntry => loose
  | _ => false

theorem tokens_cons (loose : Bool) (t : Tree) :
    ∃ x r, t.tokens loose = x :: r ∧ x.startsTree loose = true := by
  match t with
  | .text _ | .list [] | .map [] | .map (_ :: _) => exact ⟨_, _, by rw [Tree.tokens], rfl⟩
  | .list (t :: ts) =>
      cases loose with
      | false => exact ⟨_, _, by simp only [Tree.tokens]; rfl, rfl⟩
      | true => exact ⟨_, _, by simp only [Tree.tokens, itemTokens, if_true]; rfl, rfl⟩

/-! ### Whole trees -/

variable {handles : Handles}

/-- What stands where a tree may start is a tree. -/
theorem nodeUnless_tokens {fuel : Nat} {loose flag : Bool} (t : Tree) {r : List Token}
    {isVoid : List Token → Bool}
    (hvoid : ∀ x r, x.startsTree loose = true → isVoid (x :: r) = false) :
    nodeUnless (fuel + 1) handles true flag (isVoid (t.tokens loose ++ r)) (t.tokens loose ++ r) =
      node fuel handles true flag (t.tokens loose ++ r) := by
  obtain ⟨x, xs, heq, hx⟩ := tokens_cons loose t
  rw [heq, List.cons_append, hvoid x _ hx, nodeUnless]
  rfl

theorem endsItem_of_startsTree (x : Token) (r : List Token) (h : x.startsTree false = true) :
    endsItem (x :: r) = false ∧ endsLooseItem (x :: r) = false := by
  cases x <;> first | exact ⟨rfl, rfl⟩ | cases h

theorem endsEntry_of_startsTree {loose : Bool} (x : Token) (r : List Token)
    (h : x.startsTree loose = true) : endsEntry (x :: r) = false := by
  cases x <;> first | rfl | cases h

/-- The steps that suffice to read a tree that has these tokens. -/
def stepsFor (loose : Bool) (tokens : List Token) : Nat :=
  2 * tokens.length + if loose then 3 else 2

theorem exists_of_stepsFor {loose : Bool} {tokens : List Token} {fuel : Nat}
    (h : stepsFor loose tokens ≤ fuel) : ∃ f, fuel = f + 2 := by
  refine Nat.exists_eq_add_of_le' (Nat.le_trans ?_ h)
  unfold stepsFor
  split <;> omega

/-- The tokens of a tree are arranged as its node, whatever tokens follow; only a list without an
indentation of its own needs a token behind it that is no item. -/
def Arranges (handles : Handles) (t : Tree) : Prop :=
  ∀ (loose flag : Bool) (fuel : Nat) (r : List Token), (loose = true → flag = true) →
    stepsFor loose (t.tokens loose) ≤ fuel → (loose = true → r.head? ≠ some .blockEntry) →
    node fuel handles true flag (t.tokens loose ++ r) = some (t.node, r)

/-- The same for the items of a list, up to the end of the list. -/
structure ArrangesItems (handles : Handles) (ts : List Tree) : Prop where
  block : ∀ {fuel : Nat} {r : List Token}, stepsFor false (itemTokens ts) ≤ fuel →
    blockItems fuel handles (itemTokens ts ++ .blockEnd :: r) = some (itemNodes ts, r)
  loose : ∀ {fuel : Nat} {r : List Token}, stepsFor false (itemTokens ts) ≤ fuel →
    r.head? ≠ some .blockEntry →
    looseItems fuel handles (itemTokens ts ++ r) = some (itemNodes ts, r)

/-- The same for the entries of a map, up to the end of the map. -/
def ArrangesEntries (handles : Handles) (es : List (String × Tree)) : Prop :=
  ∀ {fuel : Nat} {r : List Token}, stepsFor false (entryTokens es) ≤ fuel →
    blockEntries fuel handles (entryTokens es ++ .blockEnd :: r) = some (entryNodes es, r)

theorem ArrangesItems.nil : ArrangesItems handles [] where
  block hfuel := by
    obtain ⟨f, rfl⟩ := exists_of_stepsFor hfuel
    simp [itemTokens, itemNodes, blockItems]
  loose {fuel r} hfuel hr := by
    obtain ⟨f, rfl⟩ := exists_of_stepsFor hfuel
    rw [itemTokens, List.nil_append, itemNodes, looseItems]
    intro r' heq
    exact hr (by simp [heq])

theorem ArrangesItems.cons {t : Tree} {ts : List Tree} (h : Arranges handles t)
    (ih : ArrangesItems handles ts) : ArrangesItems handles (t :: ts) where
  block {fuel r} hfuel := by
    obtain ⟨f, rfl⟩ := exists_of_stepsFor hfuel
    simp only [stepsFor, itemTokens, List.length_cons, List.length_append, Bool.false_eq_true,
      if_false] at hfuel
    have hitem := h false false f (itemTokens ts ++ .blockEnd :: r) id
      (by simp [stepsFor]; omega) (fun h => by cases h)
    have hrest := ih.block (r := r)
      (show stepsFor false (itemTokens ts) ≤ f + 1 by simp [stepsFor]; omega)
    rw [itemTokens, List.cons_append, List.append_assoc, blockItems,
      nodeUnless_tokens t fun x r hx => (endsItem_of_startsTree x r hx).1, hitem]
    simp [hrest, itemNodes]
  loose {fuel r} hfuel hr := by
    obtain ⟨f, rfl⟩ := exists_of_stepsFor hfuel
    simp only [stepsFor, itemTokens, List.length_cons, List.length_append, Bool.false_eq_true,
      if_false] at hfuel
    have hitem := h false false f (itemTokens ts ++ r) id
      (by simp [stepsFor]; omega) (fun h => by cases h)
    have hrest := ih.loose (r := r)
      (show stepsFor false (itemTokens ts) ≤ f + 1 by simp [stepsFor]; omega) hr
    rw [itemTokens, List.cons_append, List.append_assoc, looseItems,
      nodeUnless_tokens t fun x r hx => (endsItem_of_startsTree x r hx).2, hitem]
    simp [hrest, itemNodes]

theorem ArrangesEntries.nil : ArrangesEntries handles [] := by
  intro fuel r hfuel
  obtain ⟨f, rfl⟩ := exists_of_stepsFor hfuel
  simp [entryTokens, entryNodes, blockEntries]

theorem ArrangesEntries.cons {key : String} {t : Tree} {es : List (String × Tree)}
    (h : Arranges handles t) (ih : ArrangesEntries handles es) :
    ArrangesEntries handles ((key, t) :: es) := by
  intro fuel r hfuel
  obtain ⟨f, rfl⟩ := exists_of_stepsFor hfuel
  simp only [stepsFor, entryTokens, List.length_cons, List.length_append, Bool.false_eq_true,
    if_false] at hfuel
  obtain ⟨f, rfl⟩ : ∃ g, f = g + 1 := ⟨f - 1, by omega⟩
  have hvalue := h (isSimpleKey key) true (f + 1) (entryTokens es ++ .blockEnd :: r) (fun _ => rfl)
    (by unfold stepsFor; split <;> omega)
    (fun _ => by cases es <;> simp [entryTokens])
  have hrest := ih (r := r) (show stepsFor false (entryTokens es) ≤ f + 2 by simp [stepsFor]; omega)
  rw [entryTokens]
  simp only [List.cons_append, List.append_assoc]
  rw [blockEntries, nodeUnless, if_neg (by simp [endsEntry]), node_scalar]
  simp only [Option.bind_eq_bind, Option.bind_some]
  rw [nodeUnless_tokens t endsEntry_of_startsTree, hvalue]
  simp [hrest, entryNodes, textNode]

theorem Arranges.list {t : Tree} {ts : List Tree} (h : ArrangesItems handles (t :: ts)) :
    Arranges handles (.list (t :: ts)) := by
  intro loose flag fuel r hflag hfuel hr
  obtain ⟨f, rfl⟩ := exists_of_stepsFor hfuel
  cases loose with
  | false =>
      simp only [stepsFor, Tree.tokens, Bool.false_eq_true, if_false, List.length_cons,
        List.length_append, List.length_nil] at hfuel
      have hitems := h.block (r := r)
        (show stepsFor false (itemTokens (t :: ts)) ≤ f + 1 by simp [stepsFor]; omega)
      simp only [Tree.tokens, Bool.false_eq_true, if_false, List.cons_append, List.append_assoc,
        List.nil_append]
      rw [node_blockList, hitems]
      rfl
  | true =>
      simp only [stepsFor, Tree.tokens, if_true] at hfuel
      have hitems := h.loose
        (show stepsFor false (itemTokens (t :: ts)) ≤ f + 1 by simp [stepsFor]; omega) (hr rfl)
      simp only [Tree.tokens, if_true, itemTokens, List.cons_append] at hitems ⊢
      rw [hflag rfl, node_looseList, hitems]
      rfl

theorem Arranges.map {e : String × Tree} {es : List (String × Tree)}
    (h : ArrangesEntries handles (e :: es)) : Arranges handles (.map (e :: es)) := by
  intro loose flag fuel r _ hfuel _
  obtain ⟨f, rfl⟩ := exists_of_stepsFor hfuel
  have hlength : 2 * (entryTokens (e :: es)).length + 4 ≤ f := by
    simp only [stepsFor, Tree.tokens, List.length_cons, List.length_append,
      List.length_nil] at hfuel
    split at hfuel <;> omega
  have hentries := h (r := r)
    (show stepsFor false (entryTokens (e :: es)) ≤ f + 1 by simp [stepsFor]; omega)
  simp only [Tree.tokens, List.cons_append, List.append_assoc, List.nil_append]
  rw [node_blockMap, hentries]
  rfl

theorem Arranges.text (s : String) : Arranges handles (.text s) := by
  intro loose flag fuel r _ hfuel _
  obtain ⟨f, rfl⟩ := exists_of_stepsFor hfuel
  rw [Tree.tokens, Tree.node]
  exact node_scalar _ _

theorem Arranges.emptyList : Arranges handles (.list []) := by
  intro loose flag fuel r _ hfuel _
  obtain ⟨f, rfl⟩ := exists_of_stepsFor hfuel
  rw [Tree.tokens, Tree.node]
  exact node_emptyList

theorem Arranges.emptyMap : Arranges handles (.map []) := by
  intro loose flag fuel r _ hfuel _
  obtain ⟨f, rfl⟩ := exists_of_stepsFor hfuel
  rw [Tree.tokens, Tree.node]
  exact node_emptyMap

mutual

theorem arranges : ∀ t : Tree, Arranges handles t
  | .text s => Arranges.text s
  | .list [] => Arranges.emptyList
  | .list (t :: ts) => Arranges.list (arrangesItems (t :: ts))
  | .map [] => Arranges.emptyMap
  | .map (e :: es) => Arranges.map (arrangesEntries (e :: es))

theorem arrangesItems : ∀ ts : List Tree, ArrangesItems handles ts
  | [] => .nil
  | t :: ts => .cons (arranges t) (arrangesItems ts)

theorem arrangesEntries : ∀ es : List (String × Tree), ArrangesEntries handles es
  | [] => ArrangesEntries.nil
  | (_, t) :: es => ArrangesEntries.cons (arranges t) (arrangesEntries es)

end

/-! ### Documents -/

/-- The document that a tree says. -/
def Tree.document (t : Tree) : Document := ⟨t.node, []⟩

mutual

/-- A written tree has no anchors and no aliases. -/
theorem numbered_node (names : List (String × Nat)) :
    ∀ t : Tree, numbered names t.node = some (t.node, names)
  | .text s => by rw [Tree.node, Tree.node, textNode, numbered]; rfl
  | .list ts => by
      rw [Tree.node, Tree.node, numbered, numbered_items names ts]
      rfl
  | .map es => by
      rw [Tree.node, Tree.node, numbered, numbered_entries names es]
      rfl

theorem numbered_items (names : List (String × Nat)) :
    ∀ ts : List Tree, numberedItems names (itemNodes ts) = some (itemNodes ts, names)
  | [] => rfl
  | t :: ts => by
      rw [itemNodes, itemNodes, numberedItems, numbered_node names t]
      simp [numbered_items names ts]

theorem numbered_entries (names : List (String × Nat)) :
    ∀ es : List (String × Tree), numberedEntries names (entryNodes es) = some (entryNodes es, names)
  | [] => rfl
  | (k, t) :: es => by
      rw [entryNodes, entryNodes, numberedEntries, textNode, numbered]
      simp [numbered_node names t, numbered_entries names es, textNode]

end

mutual

theorem anchors_node : ∀ t : Tree, anchors t.node = []
  | .text _ => rfl
  | .list ts => by rw [Tree.node, anchors, anchors_items ts]
  | .map es => by rw [Tree.node, anchors, anchors_entries es]

theorem anchors_items : ∀ ts : List Tree, itemAnchors (itemNodes ts) = []
  | [] => rfl
  | t :: ts => by rw [itemNodes, itemAnchors, anchors_node t, anchors_items ts]; rfl

theorem anchors_entries : ∀ es : List (String × Tree), entryAnchors (entryNodes es) = []
  | [] => rfl
  | (k, t) :: es => by
      rw [entryNodes, entryAnchors, anchors_node t, anchors_entries es, textNode, anchors]
      rfl

end

theorem Document.of?_node (t : Tree) : Document.of? t.node = some t.document := by
  simp [Document.of?, numbered_node, anchors_node, Tree.document]

end StreamPipeline.Yaml
