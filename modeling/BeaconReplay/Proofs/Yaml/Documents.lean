import BeaconReplay.Proofs.Yaml.Tokens

/-!
# The document that a page holds

Reading the tokens of a page gives its node. Every reader is given fuel for the tokens that it
takes, and a few steps more for the readers that it calls.
-/
namespace BeaconReplay.Yaml

namespace Node

variable {handles : List (String × String)} {fuel : ℕ} {anchors : List (String × ℕ)}
  {rest : List Token} {block level : Bool}

attribute [local simp] read properties fullTag? Reader.declare Reader.behind

/-- A scalar is read. -/
theorem read_leaf (v : Leaf) : read handles (fuel + 1) block level ⟨v.token :: rest, anchors⟩ =
    (v.node, ⟨rest, anchors⟩) := by
  simp [Leaf.token, Leaf.node]

theorem readUnless_of_not {ends : Token → Bool} {t : Token} (h : ends t = false) :
    readUnless handles (fuel + 1) ends block level ⟨t :: rest, anchors⟩ =
      read handles fuel block level ⟨t :: rest, anchors⟩ := by
  simp [readUnless, h]

theorem readValue_value {ends : Token → Bool} {t : Token} (h : ends t = false) :
    readValue handles (fuel + 2) ends block ⟨.value :: t :: rest, anchors⟩ =
      read handles fuel block block ⟨t :: rest, anchors⟩ := by
  simp [readValue, readUnless_of_not h]

/-- A member is read, once its value is. -/
theorem readBlockMembers_member {name : Leaf} {t : Token} {tail after : List Token} {value : Node}
    {acc : List (Node × Node)} (ht : endsBlockMember t = false)
    (hvalue : read handles fuel true true ⟨t :: tail, anchors⟩ = (value, ⟨after, anchors⟩)) :
    readBlockMembers handles (fuel + 3) acc
        ⟨.key :: name.token :: .value :: t :: tail, anchors⟩ =
      readBlockMembers handles (fuel + 2) ((name.node, value) :: acc) ⟨after, anchors⟩ := by
  have hname : endsBlockMember name.token = false := rfl
  rw [readBlockMembers]
  simp only [Reader.behind, readUnless_of_not hname, read_leaf, readValue_value ht, hvalue]

/-- The rows of a record are read. -/
theorem readBlockMembers_rows {rs : List Row} {acc : List (Node × Node)}
    (hfuel : (rs.flatMap Row.tokens).length + 4 ≤ fuel) :
    readBlockMembers handles fuel acc ⟨rs.flatMap Row.tokens ++ .blockEnd :: rest, anchors⟩ =
      (acc.reverse ++ rs.map Row.node, true, ⟨rest, anchors⟩) := by
  induction rs generalizing fuel acc with
  | nil =>
    obtain ⟨fuel, rfl⟩ : ∃ n, fuel = n + 1 := ⟨fuel - 1, by simp at hfuel; omega⟩
    simp [readBlockMembers]
  | cons r rs ih =>
    simp only [List.flatMap_cons, List.length_append, Row.tokens, List.length_cons,
      List.length_nil] at hfuel
    obtain ⟨fuel, rfl⟩ : ∃ n, fuel = n + 4 := ⟨fuel - 4, by omega⟩
    have hrow : ∀ tail, readBlockMembers handles (fuel + 4) acc ⟨r.tokens ++ tail, anchors⟩ =
        readBlockMembers handles (fuel + 3) (r.node :: acc) ⟨tail, anchors⟩ :=
      fun tail => readBlockMembers_member rfl (read_leaf r.value)
    rw [List.flatMap_cons, List.append_assoc, hrow, ih (by omega)]
    simp

/-- A mapping in block style is read, once its members are. -/
theorem read_mapping {tail after : List Token} {members : List (Node × Node)}
    (hmembers : readBlockMembers handles fuel [] ⟨tail, anchors⟩ =
      (members, true, ⟨after, anchors⟩)) :
    read handles (fuel + 1) true level ⟨.blockMappingStart :: tail, anchors⟩ =
      (.mapping members true none none, ⟨after, anchors⟩) := by
  cases level <;> simp [hmembers]

/-- A sequence without indentation is read, once its items are. -/
theorem read_levelSequence {tail after : List Token} {items : List Node}
    (hitems : readLevelItems handles fuel [] ⟨.blockEntry :: tail, anchors⟩ =
      (items, true, ⟨after, anchors⟩)) :
    read handles (fuel + 1) block true ⟨.blockEntry :: tail, anchors⟩ =
      (.sequence items true none none, ⟨after, anchors⟩) := by
  simp [hitems]

/-- A record is read. -/
theorem read_block {b : Block} (hfuel : b.tokens.length + 4 ≤ fuel) :
    read handles fuel true level ⟨b.tokens ++ rest, anchors⟩ = (b.node, ⟨rest, anchors⟩) := by
  simp only [Block.tokens, List.length_cons, List.length_append, List.length_nil] at hfuel
  obtain ⟨fuel, rfl⟩ : ∃ n, fuel = n + 1 := ⟨fuel - 1, by omega⟩
  have hrows : readBlockMembers handles fuel []
      ⟨b.rows.flatMap Row.tokens ++ .blockEnd :: rest, anchors⟩ = _ :=
    readBlockMembers_rows (by omega)
  simpa [Block.tokens, Block.node, -read] using read_mapping hrows

/-- An item of a list is read. -/
theorem readUnless_item {item : Item} {tail : List Token}
    (htail : item.tokens ++ rest = .blockEntry :: tail) (hfuel : item.tokens.length + 4 ≤ fuel) :
    readUnless handles fuel endsLevelItem true false ⟨tail, anchors⟩ =
      (item.node, ⟨rest, anchors⟩) := by
  obtain ⟨fuel, rfl⟩ : ∃ n, fuel = n + 2 := ⟨fuel - 2, by omega⟩
  cases item with
  | leaf v =>
    obtain rfl : v.token :: rest = tail := by simpa [Item.tokens] using htail
    rw [readUnless_of_not (by rfl), read_leaf]
    rfl
  | block b =>
    obtain rfl : b.tokens ++ rest = tail := by simpa [Item.tokens] using htail
    have hblock : read handles (fuel + 1) true false ⟨b.tokens ++ rest, anchors⟩ = _ :=
      read_block (by simp only [Item.tokens, List.length_cons] at hfuel; omega)
    rw [Block.tokens, List.cons_append] at hblock ⊢
    rw [readUnless_of_not (by rfl), hblock]
    rfl

/-- The items of a list are read, up to a token that starts none. -/
theorem readLevelItems_items {items : List Item} {acc : List Node} {t : Token}
    (ht : t ≠ .blockEntry) (hfuel : (items.flatMap Item.tokens).length + 5 ≤ fuel) :
    readLevelItems handles fuel acc ⟨items.flatMap Item.tokens ++ t :: rest, anchors⟩ =
      (acc.reverse ++ items.map Item.node, true, ⟨t :: rest, anchors⟩) := by
  obtain ⟨fuel, rfl⟩ : ∃ n, fuel = n + 1 := ⟨fuel - 1, by omega⟩
  induction items generalizing fuel acc with
  | nil => simp [readLevelItems, ht]
  | cons item items ih =>
    obtain ⟨tail, htail⟩ : ∃ tail, item.tokens = .blockEntry :: tail := by
      cases item <;> exact ⟨_, rfl⟩
    simp only [List.flatMap_cons, List.length_append] at hfuel
    have hlength : 1 ≤ item.tokens.length := by simp [htail]
    let after := items.flatMap Item.tokens ++ t :: rest
    have hitem : readUnless handles fuel endsLevelItem true false ⟨tail ++ after, anchors⟩ =
        (item.node, ⟨after, anchors⟩) :=
      readUnless_item (by rw [htail, List.cons_append]) (by omega)
    obtain ⟨fuel, rfl⟩ : ∃ n, fuel = n + 1 := ⟨fuel - 1, by omega⟩
    rw [List.flatMap_cons, List.append_assoc, htail, List.cons_append, readLevelItems]
    simp only [Reader.behind]
    rw [hitem, ih _ (by omega)]
    simp

/-- The value of a member is read, up to the key or the end behind it. -/
theorem read_content {value : Content} {t : Token} (ht : t ≠ .blockEntry)
    (hfuel : value.tokens.length + 6 ≤ fuel) :
    read handles fuel true true ⟨value.tokens ++ t :: rest, anchors⟩ =
      (value.node, ⟨t :: rest, anchors⟩) := by
  obtain ⟨fuel, rfl⟩ : ∃ n, fuel = n + 1 := ⟨fuel - 1, by omega⟩
  cases value with
  | leaf v => exact read_leaf v
  | block b => exact read_block (by simp only [Content.tokens] at hfuel; omega)
  | list items =>
    cases items with
    | nil =>
      obtain ⟨fuel, rfl⟩ : ∃ n, fuel = n + 1 := ⟨fuel - 1, by omega⟩
      simp [Content.tokens, Content.node, readFlowItems]
    | cons item items =>
      have hitems : readLevelItems handles fuel []
          ⟨(item :: items).flatMap Item.tokens ++ t :: rest, anchors⟩ = _ :=
        readLevelItems_items ht (by simp only [Content.tokens] at hfuel; omega)
      obtain ⟨tail, htail⟩ : ∃ tail, item.tokens = .blockEntry :: tail := by
        cases item <;> exact ⟨_, rfl⟩
      simp only [Content.tokens, List.flatMap_cons, htail, List.cons_append] at hitems ⊢
      exact read_levelSequence hitems

/-- The tokens of a value start with one that the value cannot do without. -/
theorem exists_tokens_content (value : Content) :
    ∃ t tail, value.tokens = t :: tail ∧ endsBlockMember t = false := by
  cases value with
  | leaf v => exact ⟨_, _, rfl, rfl⟩
  | block b => exact ⟨_, _, rfl, rfl⟩
  | list items =>
    cases items with
    | nil => exact ⟨_, _, rfl, rfl⟩
    | cons item items => cases item <;> exact ⟨_, _, rfl, rfl⟩

/-- The members of a document are read. -/
theorem readBlockMembers_members {ms : List Member} {acc : List (Node × Node)}
    (hfuel : (ms.flatMap Member.tokens).length + 6 ≤ fuel) :
    readBlockMembers handles fuel acc ⟨ms.flatMap Member.tokens ++ .blockEnd :: rest, anchors⟩ =
      (acc.reverse ++ ms.map Member.node, true, ⟨rest, anchors⟩) := by
  induction ms generalizing fuel acc with
  | nil =>
    obtain ⟨fuel, rfl⟩ : ∃ n, fuel = n + 1 := ⟨fuel - 1, by omega⟩
    simp [readBlockMembers]
  | cons m ms ih =>
    simp only [List.flatMap_cons, List.length_append, Member.tokens, List.length_cons] at hfuel
    obtain ⟨fuel, rfl⟩ : ∃ n, fuel = n + 3 := ⟨fuel - 3, by omega⟩
    -- behind a member stands the key of the next one or the end of the mapping
    obtain ⟨s, after, hafter, hs⟩ : ∃ s after,
        ms.flatMap Member.tokens ++ .blockEnd :: rest = s :: after ∧ s ≠ .blockEntry := by
      cases ms with
      | nil => exact ⟨_, _, rfl, by simp⟩
      | cons next ms => exact ⟨_, _, rfl, by simp⟩
    obtain ⟨t, tail, htail, ht⟩ := exists_tokens_content m.value
    have hvalue : read handles fuel true true ⟨m.value.tokens ++ s :: after, anchors⟩ = _ :=
      read_content hs (by omega)
    have hmember : readBlockMembers handles (fuel + 3) acc ⟨m.tokens ++ s :: after, anchors⟩ =
        readBlockMembers handles (fuel + 2) (m.node :: acc) ⟨s :: after, anchors⟩ := by
      rw [htail, List.cons_append] at hvalue
      rw [Member.tokens, htail]
      exact readBlockMembers_member ht hvalue
    rw [List.flatMap_cons, List.append_assoc, hafter, hmember, ← hafter, ih (by omega)]
    simp

variable (d : Page)

attribute [local simp] intact intactItems intactMembers

@[simp] theorem intact_leaf (v : Leaf) : v.node.intact = true := by
  simp [Leaf.node]

theorem intact_rows (rs : List Row) : intactMembers (rs.map Row.node) = true := by
  induction rs with
  | nil => rfl
  | cons r rs ih => simp [Row.node, ih]

@[simp] theorem intact_block (b : Block) : b.node.intact = true := by
  simp [Block.node, intact_rows]

theorem intact_items (items : List Item) : intactItems (items.map Item.node) = true := by
  induction items with
  | nil => rfl
  | cons item items ih => cases item <;> simp [Item.node, ih]

theorem intact_content (value : Content) : value.node.intact = true := by
  cases value <;> simp [Content.node, intact_items]

theorem intact_members (ms : List Member) : intactMembers (ms.map Member.node) = true := by
  induction ms with
  | nil => rfl
  | cons m ms ih => simp [Member.node, intact_content, ih]

/-- The node of a page is there to its end. -/
theorem intact_page : d.node.intact = true := by
  simp [Page.node, intact_members]

end Node

namespace Document

/-- **The text of a page is one complete document with its node.** -/
theorem ofString_page (d : Page) : ofString (String.ofList d.chars) =
    ⟨d.node, d.node.anchored [], true⟩ := by
  have hmembers : Node.readBlockMembers defaultHandles (4 * d.tokens.length + 7) []
      ⟨d.members.flatMap Member.tokens ++ [.blockEnd, .streamEnd], []⟩ = _ :=
    Node.readBlockMembers_members
      (by simp only [Page.tokens, List.length_cons, List.length_append]; omega)
  have hread : Node.read defaultHandles (4 * d.tokens.length + 8) true false ⟨d.tokens.tail, []⟩ =
      (d.node, ⟨[.streamEnd], []⟩) := Node.read_mapping hmembers
  have hroot : ofTokens d.tokens =
      ofRoot (Node.read defaultHandles (4 * d.tokens.length + 8) true false ⟨d.tokens.tail, []⟩).1
        (Node.read defaultHandles (4 * d.tokens.length + 8) true false
          ⟨d.tokens.tail, []⟩).2.tokens := rfl
  rw [ofString, d.tokens_ofList, hroot, hread]
  rfl

end Document

end BeaconReplay.Yaml
