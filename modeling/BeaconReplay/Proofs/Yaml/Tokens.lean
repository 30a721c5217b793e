import BeaconReplay.Proofs.Yaml.Scan

/-!
# The tokens of a printed document

The lines of a document are scanned one by one. Members and items stand at column zero, inside the
mapping that the first key opens; a record stands at column two and is closed by the first line
that stands at column zero again.
-/
namespace BeaconReplay.Yaml

namespace Leaf

/-- A scalar starts with a token. -/
theorem atToken_chars (v : Leaf) (rest : List Char) : atToken (v.chars ++ rest) = true := by
  obtain ⟨⟨text, hne, hsafe, hshort⟩, isQuoted⟩ := v
  obtain ⟨c, cs, htext⟩ := List.exists_cons_of_ne_nil hne
  have hc : isSafe c = true := hsafe c (by simp [htext])
  cases isQuoted with
  | true => rfl
  | false =>
    simp (disch := decide) only [chars, htext, Bool.false_eq_true, if_false, List.cons_append,
      atToken, isBlank_of_safe hc, isBreak_of_safe hc, beq_of_safe hc, Bool.or_self, Bool.not_false]

end Leaf

namespace Spot

variable {p : Spot} {limit k : ℕ} {rest : List Char} {tokens : List Token}

/-- A spot at the start of a line that is not indented. -/
def outer (rest : List Char) (tokens : List Token) : Spot := ⟨rest, 0, true, 0, [-1], tokens⟩

/-- A spot behind a dash, or in front of the first row of a record. -/
def indented (rest : List Char) (tokens : List Token) : Spot := ⟨rest, 2, true, 0, [-1], tokens⟩

/-- A spot in front of a further row of a record. -/
def inner (rest : List Char) (tokens : List Token) : Spot := ⟨rest, 2, true, 2, [0, -1], tokens⟩

/-- **A row leads to the next line.** -/
theorem leads_row {r : Row} (hp : p.rest = r.chars ++ (List.replicate k ' ' ++ rest))
    (hrest : atToken rest = true) (hallowed : p.keyAllowed = true) (hindent : p.indent ≤ p.column)
    (hk : k ≤ p.column) (hindents : ∀ n ∈ p.opened.indents, n ≤ (k : ℤ))
    (hlimit : p.rest.length < limit) :
    Leads limit p (close ⟨rest, k, true, p.opened.indent, p.opened.indents,
      r.tokens.reverse ++ p.opened.tokens⟩) := by
  let line := r.value.chars ++ '\n' :: (List.replicate k ' ' ++ rest)
  have hline : p.rest = r.key.chars ++ ':' :: ' ' :: line := by simp [hp, Row.chars, line]
  have hlength : line.length < limit := by
    rw [hline] at hlimit
    simp only [List.length_append, List.length_cons] at hlimit
    omega
  have hvalue : Leads limit p _ := leads_key_inline rfl hline (r.value.atToken_chars _) hallowed
    hindent (fun n hn => (hindents n hn).trans (by exact_mod_cast hk)) (by omega)
  refine hvalue.trans (leads_leaf rfl hrest (by simp [behindKey]) ?_ hindents hlength)
  simpa [behindKey, indent_opened hindent] using hk

theorem atToken_row (r : Row) (rest : List Char) : atToken (r.chars ++ rest) = true := by
  rw [Row.chars, List.append_assoc]
  exact r.key.atToken_chars _

theorem atToken_block (b : Block) (rest : List Char) : atToken (b.chars ++ rest) = true := by
  rw [Block.chars, List.append_assoc]
  exact atToken_row _ _

/-- **The rows of a record lead to the line behind them**, where the record is closed. -/
theorem leads_rows {rs : List Row} {r : Row}
    (hp : p.rest = r.chars ++ (Block.otherChars rs ++ rest))
    (hrest : atToken rest = true) (hallowed : p.keyAllowed = true) (hcolumn : p.column = 2)
    (hindent : p.indent ≤ 2) (hindents : p.opened.indents = [0, -1])
    (hlimit : p.rest.length < limit) :
    Leads limit p (outer rest
      (.blockEnd :: (((r :: rs).flatMap Row.tokens).reverse ++ p.opened.tokens))) := by
  have hopened : p.opened.indent = 2 := by rw [indent_opened (by omega), hcolumn]; rfl
  induction rs generalizing r p with
  | nil =>
    have hrow : Leads limit p _ := leads_row (k := 0) hp hrest hallowed (by omega) (by omega)
      (by simp [hindents]) hlimit
    simpa [close, hindents, hopened, outer] using hrow
  | cons s rs ih =>
    -- the next row stands at the same column, so that it opens no record of its own
    let next := s.chars ++ (Block.otherChars rs ++ rest)
    let tokens := r.tokens.reverse ++ p.opened.tokens
    have hline : p.rest = r.chars ++ (List.replicate 2 ' ' ++ next) := by
      simp [hp, Block.otherChars, next, List.replicate]
    have hrow : Leads limit p (inner next tokens) := by
      have hrow : Leads limit p _ := leads_row hline (atToken_row _ _) hallowed (by omega)
        (by omega) (by simp [hindents]) hlimit
      simpa [close, hindents, hopened, inner] using hrow
    have hlength : (inner next tokens).rest.length < limit := by
      rw [hline] at hlimit
      simp only [List.length_append] at hlimit
      simp only [inner]
      omega
    have hrows := ih (p := inner next tokens) (r := s) rfl rfl rfl le_rfl rfl hlength rfl
    simpa [tokens, opened, inner] using hrow.trans hrows

/-- **A record leads to the line behind it.** -/
theorem leads_block {b : Block} (hrest : atToken rest = true)
    (hlimit : (b.chars ++ rest).length < limit) :
    Leads limit (indented (b.chars ++ rest) tokens) (outer rest (b.tokens.reverse ++ tokens)) := by
  have hindent : (indented (b.chars ++ rest) tokens).indent ≤ 2 := by simp [indented]
  have hchars : (indented (b.chars ++ rest) tokens).rest =
      b.first.chars ++ (Block.otherChars b.others ++ rest) := by simp [Block.chars, indented]
  have hrows : Leads limit _ _ := leads_rows hchars hrest rfl rfl hindent rfl hlimit
  simpa [Block.tokens, Block.rows, opened, indented] using hrows

/-- From the dash of an item to the item, inside the outermost mapping. -/
theorem leads_outer_dash (hrest : atToken rest = true) (hlimit : 1 ≤ limit) :
    Leads limit (outer ('-' :: ' ' :: rest) tokens) (indented rest (.blockEntry :: tokens)) :=
  leads_dash rfl hrest rfl rfl (by simp [outer]) hlimit

/-- **An item leads to the line behind it.** -/
theorem leads_item {item : Item} (hrest : atToken rest = true)
    (hlimit : (item.chars ++ rest).length < limit) :
    Leads limit (outer (item.chars ++ rest) tokens)
      (outer rest (item.tokens.reverse ++ tokens)) := by
  cases item with
  | leaf v =>
    have hchars : (Item.leaf v).chars ++ rest = '-' :: ' ' :: (v.chars ++ '\n' :: rest) := by
      simp [Item.chars]
    rw [hchars] at hlimit ⊢
    simp only [List.length_cons] at hlimit
    refine (leads_outer_dash (v.atToken_chars _) (by omega)).trans ?_
    have hleaf : Leads limit _ _ := leads_leaf (k := 0) (v := v)
      (p := indented (v.chars ++ '\n' :: rest) (.blockEntry :: tokens)) rfl hrest
      (by simp [indented]) (by simp [indented]) (by simp [indented])
      (by simp only [indented]; omega)
    simpa [close, indented, outer, Item.tokens] using hleaf
  | block b =>
    have hchars : (Item.block b).chars ++ rest = '-' :: ' ' :: (b.chars ++ rest) := by
      simp [Item.chars]
    rw [hchars] at hlimit ⊢
    simp only [List.length_cons] at hlimit
    refine (leads_outer_dash (atToken_block b rest) (by omega)).trans ?_
    have hleads : Leads limit (indented (b.chars ++ rest) (.blockEntry :: tokens)) _ :=
      leads_block hrest (by omega)
    simpa [Item.tokens] using hleads

theorem atToken_item (item : Item) (rest : List Char) : atToken (item.chars ++ rest) = true := by
  cases item <;> rfl

/-- **The items of a list lead to the line behind them.** -/
theorem leads_items {items : List Item} (hrest : atToken rest = true)
    (hlimit : (items.flatMap Item.chars ++ rest).length < limit) :
    Leads limit (outer (items.flatMap Item.chars ++ rest) tokens)
      (outer rest ((items.flatMap Item.tokens).reverse ++ tokens)) := by
  induction items generalizing tokens with
  | nil => exact .refl _ _
  | cons item items ih =>
    simp only [List.flatMap_cons, List.append_assoc, List.length_append] at hlimit ⊢
    have hnext : atToken (items.flatMap Item.chars ++ rest) = true := by
      cases items with
      | nil => exact hrest
      | cons next items => simpa using atToken_item next _
    have hitem : Leads limit (outer (item.chars ++ _) tokens) _ :=
      leads_item hnext (by simpa using hlimit)
    have hitems := @ih (item.tokens.reverse ++ tokens) (by simp only [List.length_append]; omega)
    simpa using hitem.trans hitems

/-- The tokens up to the colon behind a name, in reverse. -/
def nameTokens (name : SafeText) (tokens : List Token) : List Token :=
  .value :: .scalar name.text .plain :: .key :: tokens

/-- The characters of a name. -/
abbrev nameChars (name : SafeText) : List Char := Leaf.chars ⟨name, false⟩

variable {name : SafeText} {v : List Char}

/-- From the name of a member to its value on the same line. -/
theorem leads_member_inline (hp : p.rest = nameChars name ++ ':' :: ' ' :: v)
    (hv : atToken v = true) (hallowed : p.keyAllowed = true) (hcolumn : p.column = 0)
    (hindent : p.indent ≤ 0) (hindents : p.opened.indents = [-1]) (hlimit : 1 ≤ limit) :
    Leads limit p
      ⟨v, (nameChars name).length + 2, false, 0, [-1], nameTokens name p.opened.tokens⟩ := by
  have hopened : p.opened.indent = 0 := by rw [indent_opened (by omega), hcolumn]; rfl
  have hkey : Leads limit p _ := leads_key_inline rfl hp hv hallowed (by omega)
    (by simp [hindents]) hlimit
  simpa [behindKey, hindents, hopened, hcolumn, nameTokens, Leaf.token, Leaf.style] using hkey

/-- From the name of a member to its value on the lines below. -/
theorem leads_member_break
    (hp : p.rest = nameChars name ++ ':' :: '\n' :: (List.replicate k ' ' ++ v))
    (hv : atToken v = true) (hallowed : p.keyAllowed = true) (hcolumn : p.column = 0)
    (hindent : p.indent ≤ 0) (hindents : p.opened.indents = [-1]) (hlimit : 2 ≤ limit) :
    Leads limit p ⟨v, k, true, 0, [-1], nameTokens name p.opened.tokens⟩ := by
  have hopened : p.opened.indent = 0 := by rw [indent_opened (by omega), hcolumn]; rfl
  have hkey : Leads limit p _ := leads_key_break rfl hp hv hallowed (by omega)
    (by simp [hindents]) hlimit
  rw [close_of_le (by simp [behindKey, hopened])] at hkey
  simpa [behindKey, hindents, hopened, nameTokens, Leaf.token, Leaf.style] using hkey

/-- **A member leads to the line behind it.** -/
theorem leads_member {m : Member} (hp : p.rest = m.chars ++ rest) (hrest : atToken rest = true)
    (hallowed : p.keyAllowed = true) (hcolumn : p.column = 0) (hindent : p.indent ≤ 0)
    (hindents : p.opened.indents = [-1]) (hlimit : p.rest.length < limit) :
    Leads limit p (outer rest (m.tokens.reverse ++ p.opened.tokens)) := by
  obtain ⟨name, value⟩ := m
  have hname : p.rest = nameChars name ++ ':' :: (value.chars ++ rest) := by
    simp [hp, Member.chars, Member.key]
  have htokens : (Member.tokens ⟨name, value⟩).reverse ++ p.opened.tokens =
      value.tokens.reverse ++ nameTokens name p.opened.tokens := by
    simp [Member.tokens, Member.key, Leaf.token, Leaf.style, nameTokens]
  rw [hname] at hlimit
  simp only [List.length_append, List.length_cons] at hlimit
  rw [htokens]
  cases value with
  | leaf v =>
    have hline : p.rest = nameChars name ++ ':' :: ' ' :: (v.chars ++ '\n' :: rest) := by
      simp [hname, Content.chars]
    refine (leads_member_inline hline (v.atToken_chars _) hallowed hcolumn hindent hindents
      (by omega)).trans ?_
    have hleaf : Leads limit _ _ := leads_leaf (k := 0) (v := v)
      (p := ⟨v.chars ++ '\n' :: rest, (nameChars name).length + 2, false, 0, [-1],
        nameTokens name p.opened.tokens⟩) rfl hrest (by simp) le_rfl (by simp)
      (by simp [Content.chars] at hlimit ⊢; omega)
    simpa [close, outer, Content.tokens] using hleaf
  | block b =>
    have hline : p.rest =
        nameChars name ++ ':' :: '\n' :: (List.replicate 2 ' ' ++ (b.chars ++ rest)) := by
      simp [hname, Content.chars, List.replicate]
    refine (leads_member_break hline (atToken_block b rest) hallowed hcolumn hindent hindents
      (by omega)).trans ?_
    exact leads_block hrest (by simp [Content.chars] at hlimit ⊢; omega)
  | list items =>
    cases items with
    | nil =>
      have hline : p.rest = nameChars name ++ ':' :: ' ' :: '[' :: ']' :: '\n' :: rest := by
        simp [hname, Content.chars]
      refine (leads_member_inline hline rfl hallowed hcolumn hindent hindents (by omega)).trans ?_
      have hlist : Leads limit _ _ := leads_brackets (k := 0)
        (p := ⟨'[' :: ']' :: '\n' :: rest, (nameChars name).length + 2, false, 0, [-1],
          nameTokens name p.opened.tokens⟩) rfl hrest rfl (by simp) (by omega)
      simpa [close, outer, behindBrackets, Content.tokens] using hlist
    | cons item items =>
      have hline : p.rest = nameChars name ++ ':' :: '\n' ::
          (List.replicate 0 ' ' ++ ((item :: items).flatMap Item.chars ++ rest)) := by
        simp [hname, Content.chars]
      have hitem : atToken ((item :: items).flatMap Item.chars ++ rest) = true := by
        rw [List.flatMap_cons, List.append_assoc]
        exact atToken_item _ _
      refine (leads_member_break hline hitem hallowed hcolumn hindent hindents (by omega)).trans ?_
      exact leads_items hrest (by simp [Content.chars] at hlimit ⊢; omega)

theorem atToken_member (m : Member) (rest : List Char) : atToken (m.chars ++ rest) = true := by
  rw [Member.chars, List.append_assoc]
  exact m.key.atToken_chars _

/-- **Members lead to the end of the document.** -/
theorem leads_members {ms : List Member} (hlimit : (ms.flatMap Member.chars).length < limit) :
    Leads limit (outer (ms.flatMap Member.chars) tokens)
      (outer [] ((ms.flatMap Member.tokens).reverse ++ tokens)) := by
  induction ms generalizing tokens with
  | nil => exact .refl _ _
  | cons m ms ih =>
    rw [List.flatMap_cons, List.length_append] at hlimit
    have hnext : atToken (ms.flatMap Member.chars) = true := by
      cases ms with
      | nil => rfl
      | cons next ms => simpa using atToken_member next _
    have hmember : Leads limit (outer ((m :: ms).flatMap Member.chars) tokens) _ :=
      leads_member (m := m) rfl hnext rfl rfl le_rfl rfl (by simpa [outer] using hlimit)
    have hmembers := @ih (m.tokens.reverse ++ tokens) (by omega)
    simpa [opened, outer] using hmember.trans hmembers

/-- The spot in front of a document. -/
def start (cs : List Char) : Spot := ⟨cs, 0, true, -1, [], [.streamStart]⟩

/-- **A document leads from its start to its end.** -/
theorem leads_document {d : Page} (hlimit : d.chars.length < limit) :
    Leads limit (start d.chars) (outer []
      ((d.members.flatMap Member.tokens).reverse ++ [.blockMappingStart, .streamStart])) := by
  obtain ⟨first, others⟩ := d
  simp only [Page.chars, Page.members, List.flatMap_cons] at hlimit ⊢
  rw [List.length_append] at hlimit
  have hnext : atToken (others.flatMap Member.chars) = true := by
    cases others with
    | nil => rfl
    | cons next others => simpa using atToken_member next _
  have hfirst : Leads limit (start (first.chars ++ others.flatMap Member.chars)) _ :=
    leads_member (m := first) rfl hnext rfl rfl (by simp [start]) rfl
      (by simpa [start] using hlimit)
  have hothers : Leads limit (outer (others.flatMap Member.chars)
      (first.tokens.reverse ++ [.blockMappingStart, .streamStart])) _ := leads_members (by omega)
  simpa [opened, start] using hfirst.trans hothers

theorem arrive_start {d : Page} (hlimit : 1 ≤ limit) :
    (Lexer.start d.chars).arrive limit = some ((start d.chars).lexer 0 0) := by
  have hfirst : atToken d.chars = true := by
    simpa [Page.chars, Page.members] using atToken_member d.first _
  have harrive : ((start d.chars).lexer 0 0).arrive limit = _ :=
    arrive_blanks (k := 0) hlimit hfirst rfl (by simp [start])
  rwa [close_of_le (by simp [start])] at harrive

/-- At the end of a document the outermost mapping is closed. -/
theorem read_end (limit i l : ℕ) (tokens : List Token) :
    ∃ t : Lexer, ((outer [] tokens).lexer i l).read limit = some t ∧
      t.tokens = .streamEnd :: .blockEnd :: tokens :=
  ⟨_, rfl, rfl⟩

end Spot

/-- A text of allowed characters is taken whole. -/
theorem beforeForbidden_of_allowed {cs : List Char} (h : ∀ c ∈ cs, isAllowed c = true) (n : ℕ)
    (kept acc : List Char) :
    beforeForbidden n kept acc cs = ((cs.reverse ++ (acc ++ kept)).reverse, false) := by
  induction cs generalizing n kept acc with
  | nil => simp [beforeForbidden]
  | cons c cs ih =>
    have hcs : ∀ d ∈ cs, isAllowed d = true := fun d hd => h d (List.mem_cons_of_mem _ hd)
    rw [beforeForbidden, if_pos (h c (List.mem_cons_self ..))]
    simp only [ih hcs]
    split <;> simp

section Allowed

/-- Safe characters are printable, so they may stand in a text. -/
theorem isAllowed_of_safe {c : Char} (hc : isSafe c = true) : isAllowed c = true := by
  have hrange : 0x20 ≤ c.toNat ∧ c.toNat ≤ 0x7E := by
    simp only [isSafe, Bool.or_eq_true, Bool.and_eq_true, decide_eq_true_eq, Char.le_def,
      UInt32.le_iff_toNat_le, beq_iff_eq] at hc
    rcases hc with (⟨hlow, hhigh⟩ | ⟨hlow, hhigh⟩) | rfl
    · exact ⟨le_trans (by decide) hlow, le_trans hhigh (by decide)⟩
    · exact ⟨le_trans (by decide) hlow, le_trans hhigh (by decide)⟩
    · decide
  simp [isAllowed, hrange]

@[simp] theorem isAllowed_leaf (v : Leaf) : v.chars.all isAllowed = true := by
  have hcontent : ∀ c ∈ v.content.text.toList, isAllowed c = true :=
    fun c hc => isAllowed_of_safe (v.content.safe c hc)
  have hquote : isAllowed '\'' = true := by decide
  rw [List.all_eq_true]
  intro c hc
  unfold Leaf.chars at hc
  split at hc
  · simp only [List.mem_cons, List.mem_append, List.not_mem_nil, or_false] at hc
    rcases hc with rfl | hc | rfl
    · exact hquote
    · exact hcontent c hc
    · exact hquote
  · exact hcontent c hc

@[simp] theorem isAllowed_mark {c : Char} (hc : c ∈ [' ', '\n', ':', '-', '[', ']']) :
    isAllowed c = true := by
  fin_cases hc <;> decide

@[simp] theorem isAllowed_row (r : Row) : r.chars.all isAllowed = true := by
  simp [Row.chars]

@[simp] theorem isAllowed_block (b : Block) : b.chars.all isAllowed = true := by
  simp [Block.chars, Block.otherChars]

@[simp] theorem isAllowed_item (item : Item) : item.chars.all isAllowed = true := by
  cases item <;> simp [Item.chars]

@[simp] theorem isAllowed_content (value : Content) : value.chars.all isAllowed = true := by
  cases value with
  | leaf v => simp [Content.chars]
  | block b => simp [Content.chars]
  | list items => cases items <;> simp [Content.chars]

end Allowed

namespace Page

variable (d : Page)

/-- Every character of a document may stand in a text. -/
theorem isAllowed_chars : d.chars.all isAllowed = true := by
  simp [chars, Member.chars]

/-- **The text of a document consists of its tokens.** -/
theorem tokens_ofList : Yaml.tokens (String.ofList d.chars) = d.tokens := by
  have hallowed : beforeForbidden 0 [] [] d.chars = (d.chars, false) := by
    simpa using beforeForbidden_of_allowed (List.all_eq_true.1 d.isAllowed_chars) 0 [] []
  let limit := 2 * d.chars.length + 4
  have hlimit : d.chars.length < limit := by omega
  obtain ⟨n, j, k, hn, hsteps⟩ := Spot.leads_document hlimit 0 0
  obtain ⟨r, harrive, hrun⟩ := Lexer.run_of_steps (Spot.arrive_start (by omega)) hsteps
  obtain ⟨t, hread, htokens⟩ := Spot.read_end limit j k
    ((d.members.flatMap Member.tokens).reverse ++ [.blockMappingStart, .streamStart])
  have hn' : n ≤ d.chars.length := by simpa [Spot.start, Spot.outer] using hn
  obtain ⟨fuel, hfuel⟩ : ∃ fuel, limit = fuel + 1 + n := ⟨limit - 1 - n, by omega⟩
  have hstep : Lexer.step limit r = some t := by
    rw [Lexer.step_eq, harrive, Option.bind_some, hread]
  have hlast : Lexer.run limit false limit (.start d.chars) = t.tokens.reverse := by
    conv_lhs => arg 3; rw [hfuel]
    rw [hrun, Lexer.run, hstep]
    simp [htokens]
  simp only [Yaml.tokens, String.toList_ofList, hallowed, Bool.false_and, Bool.false_eq_true,
    if_false]
  rw [hlast, htokens]
  simp [tokens]

end Page

end BeaconReplay.Yaml
