import BeaconReplay.Proofs.Yaml.Scalars

/-!
# The lexer on printed lines

Between two tokens little of the lexer matters: what follows, in which column, whether a key may
start, the open blocks, and the tokens so far. A spot is that much of it. A scan leads from spot
to spot, and every character that it passes over pays for at most one step.
-/
namespace BeaconReplay.Yaml

namespace Lexer

/-- Go on to the next token: pass over what stands in front of it, and close the blocks that end
there. -/
def arrive (limit : Nat) (s : Lexer) : Option Lexer := do
  let (keyAllowed, c) := s.cursor.toToken s.inFlow limit s.keyAllowed
  let s ← { s with keyAllowed, cursor := c }.refresh
  pure (s.closeBlocks c.column)

/-- Read the token at the cursor. -/
def read (limit : Nat) (s : Lexer) : Option Lexer := (token limit s).bind refresh

theorem step_eq (limit : Nat) (s : Lexer) : step limit s = (s.arrive limit).bind (read limit) := by
  simp only [step, arrive, read, Option.bind_eq_bind, Option.pure_def, Option.bind_assoc,
    Option.bind_some]

/-- A number of tokens is read, none of which ends the text; the lexer stands in front of a token
before and after that. -/
inductive Steps (limit : Nat) : Nat → Lexer → Lexer → Prop where
  | refl (s : Lexer) : Steps limit 0 s s
  | next {n : Nat} {s t u v : Lexer} (hread : read limit s = some t)
      (hend : t.tokens.head? ≠ some .streamEnd) (harrive : t.arrive limit = some u)
      (hsteps : Steps limit n u v) : Steps limit (n + 1) s v

variable {limit n m : Nat} {s t u : Lexer}

theorem Steps.trans (hst : Steps limit n s t) (htu : Steps limit m t u) :
    Steps limit (n + m) s u := by
  induction hst with
  | refl => simpa using htu
  | @next n s t u v hread hend harrive _ ih =>
    have hrest := Steps.next hread hend harrive (ih htu)
    rwa [Nat.add_right_comm]

/-- A run passes through the steps. -/
theorem run_of_steps (hs : s.arrive limit = some t) (hsteps : Steps limit n t u) :
    ∃ r : Lexer, r.arrive limit = some u ∧
      ∀ cut fuel, run limit cut (fuel + n) s = run limit cut fuel r := by
  induction hsteps generalizing s with
  | refl => exact ⟨s, hs, fun _ _ => rfl⟩
  | @next n s₁ t₁ u₁ v hread hend harrive _ ih =>
    obtain ⟨r, hr, hrun⟩ := ih harrive
    refine ⟨r, hr, fun cut fuel => ?_⟩
    have hstep : step limit s = some t₁ := by rw [step_eq, hs, Option.bind_some, hread]
    rw [← hrun, ← Nat.add_assoc, run, hstep]
    simp only [hend, if_false]

end Lexer

/-- What matters of a lexer in front of a token. -/
structure Spot where
  rest : List Char
  column : Nat
  keyAllowed : Bool
  indent : Int
  indents : List Int
  tokens : List Token

namespace Spot

variable {p q r : Spot} {limit i l : ℕ}

/-- A lexer at a spot. -/
def lexer (p : Spot) (i l : Nat) : Lexer where
  cursor := ⟨p.rest, i, l, p.column⟩
  indent := p.indent
  indents := p.indents
  keyAllowed := p.keyAllowed
  pending := none
  around := []
  tokens := p.tokens
  count := p.tokens.length

/-- The innermost block is closed if it lies to the right of the spot. -/
def close (p : Spot) : Spot :=
  match p.indents with
  | parent :: parents =>
    if p.column < p.indent then
      { p with indent := parent, indents := parents, tokens := .blockEnd :: p.tokens }
    else p
  | [] => p

@[simp] theorem rest_close : p.close.rest = p.rest := by
  unfold close
  split
  · split <;> rfl
  · rfl

theorem close_of_le (h : p.indent ≤ p.column) : p.close = p := by
  unfold close
  split
  · rw [if_neg (by omega)]
  · rfl

theorem closeBlocks_lexer (h : ∀ n ∈ p.indents, n ≤ (p.column : ℤ)) :
    (p.lexer i l).closeBlocks p.column = p.close.lexer i l := by
  obtain ⟨rest, column, allowed, indent, indents, tokens⟩ := p
  cases indents with
  | nil => rfl
  | cons parent parents =>
    have hparent : ¬(column : ℤ) < parent := by
      have := h parent (List.mem_cons_self ..)
      simpa using this
    by_cases hclose : (column : ℤ) < indent
    · simp only [Lexer.closeBlocks, lexer, Lexer.inFlow, close, Lexer.closeBlocksFrom, hclose]
      cases parents with
      | nil => simp [Lexer.closeBlocksFrom, Lexer.emit]
      | cons _ _ => simp [Lexer.closeBlocksFrom, Lexer.emit, hparent]
    · simp [Lexer.closeBlocks, lexer, Lexer.inFlow, close, Lexer.closeBlocksFrom, hclose]

/-- The lexer gets from one spot to another, with at most one step for each character. -/
def Leads (limit : Nat) (p q : Spot) : Prop :=
  ∀ i l, ∃ n j k, n + q.rest.length ≤ p.rest.length ∧
    Lexer.Steps limit n (p.lexer i l) (q.lexer j k)

theorem Leads.refl (limit : Nat) (p : Spot) : Leads limit p p :=
  fun i l => ⟨0, i, l, by omega, .refl _⟩

theorem Leads.trans (hpq : Leads limit p q) (hqr : Leads limit q r) : Leads limit p r := by
  intro i l
  obtain ⟨n, j, k, hn, hsteps⟩ := hpq i l
  obtain ⟨m, j', k', hm, hsteps'⟩ := hqr j k
  exact ⟨n + m, j', k', by omega, hsteps.trans hsteps'⟩

/-- What stands behind a line break is found at its indentation. -/
theorem arrive_of_break {s : Lexer} {v : List Char} {k col : ℕ} (hlimit : 2 ≤ limit)
    (hv : atToken v = true) (hs : s.cursor = ⟨'\n' :: (List.replicate k ' ' ++ v), i, l, col⟩)
    (haround : s.around = [])
    (hpending : ∀ key ∈ s.pending, key.line ≤ l ∧ key.required = false)
    (hcount : s.count = s.tokens.length) (hindents : ∀ n ∈ s.indents, n ≤ (k : ℤ)) :
    ∃ j, s.arrive limit =
      some ((close ⟨v, k, true, s.indent, s.indents, s.tokens⟩).lexer j (l + 1)) := by
  obtain ⟨limit, rfl⟩ : ∃ n, limit = n + 2 := ⟨limit - 2, by omega⟩
  refine ⟨i + 1 + k, ?_⟩
  rw [← closeBlocks_lexer hindents]
  obtain ⟨cursor, indent, indents, allowed, pending, around, tokens, count⟩ := s
  dsimp only at hs haround hpending hcount
  subst hs haround hcount
  simp only [Lexer.arrive, Lexer.inFlow, List.isEmpty_nil, Bool.not_true, Cursor.toToken_break hv,
    Lexer.refresh, Option.bind_eq_bind, Option.pure_def]
  cases pending with
  | none => simp [Lexer.refreshKey, lexer]
  | some key =>
    obtain ⟨hline, hrequired⟩ := hpending key rfl
    have hstale : key.line < l + 1 := by omega
    simp [Lexer.refreshKey, Lexer.isStale, hstale, hrequired, lexer]

/-- A spot in front of a line break is left for the next line. -/
theorem arrive_break {v : List Char} {k : ℕ} (hlimit : 2 ≤ limit) (hv : atToken v = true)
    (hp : p.rest = '\n' :: (List.replicate k ' ' ++ v)) (hindents : ∀ n ∈ p.indents, n ≤ (k : ℤ)) :
    ∃ j, (p.lexer i l).arrive limit =
      some ((close { p with rest := v, column := k, keyAllowed := true }).lexer j (l + 1)) := by
  have hcursor : (p.lexer i l).cursor =
      ⟨'\n' :: (List.replicate k ' ' ++ v), i, l, p.column⟩ := by
    rw [← hp]
    rfl
  exact arrive_of_break hlimit hv hcursor rfl (by simp [lexer]) rfl hindents

/-- Blanks in front of a token on the same line are passed over. -/
theorem arrive_blanks {v : List Char} {k : ℕ} (hlimit : 1 ≤ limit) (hv : atToken v = true)
    (hp : p.rest = List.replicate k ' ' ++ v)
    (hindents : ∀ n ∈ p.indents, n ≤ ((p.column + k : ℕ) : ℤ)) :
    (p.lexer i l).arrive limit =
      some ((close { p with rest := v, column := p.column + k }).lexer (i + k) l) := by
  obtain ⟨limit, rfl⟩ : ∃ n, limit = n + 1 := ⟨limit - 1, by omega⟩
  obtain ⟨rest, column, allowed, indent, indents, tokens⟩ := p
  obtain rfl : rest = List.replicate k ' ' ++ v := hp
  rw [← closeBlocks_lexer hindents]
  simp [Lexer.arrive, Lexer.inFlow, Cursor.toToken_blanks hv, Lexer.refresh, Lexer.refreshKey,
    lexer]

/-- A key opens a mapping if it lies to the right of the innermost block. -/
def opened (p : Spot) : Spot :=
  if p.indent < p.column then
    { p with
      indent := p.column, indents := p.indent :: p.indents
      tokens := .blockMappingStart :: p.tokens }
  else p

/-- The key that may start at a spot. -/
def startedKey (p : Spot) (i l : Nat) : Option PendingKey :=
  if p.keyAllowed then some ⟨p.tokens.length, i, l, p.column, p.indent == p.column⟩ else none

/-- The lexer behind a scalar on one line, which may turn out to be a key. -/
def behindScalar (p : Spot) (v : Leaf) (rest : List Char) (i l : Nat) : Lexer :=
  { p.lexer i l with
    cursor := ⟨rest, i + v.chars.length, l, p.column + v.chars.length⟩
    keyAllowed := false
    pending := p.startedKey i l
    tokens := v.token :: p.tokens
    count := p.tokens.length + 1 }

/-- Behind a key and its colon. -/
def behindKey (p : Spot) (key : Leaf) (rest : List Char) : Spot where
  rest := rest
  column := p.column + key.chars.length + 1
  keyAllowed := false
  indent := p.opened.indent
  indents := p.opened.indents
  tokens := .value :: key.token :: .key :: p.opened.tokens

end Spot

namespace Lexer

variable {s : Lexer} {limit : ℕ}

/-- A safe character starts a scalar in plain style. -/
theorem token_of_safe {c : Char} {cs : List Char} (hs : s.cursor.rest = c :: cs)
    (hc : isSafe c = true) : token limit s = plain limit s := by
  simp (disch := decide) only [token, hs, beq_of_safe hc, not_marker_of_safe hc, startsPlain,
    isBlank_of_safe hc, isBreak_of_safe hc, isIndicator_of_safe hc, Bool.and_false,
    Bool.false_and, Bool.or_false, Bool.not_false, Bool.false_eq_true, if_false, if_true]

/-- Blocks that do not lie to the right of a column stay open. -/
theorem closeBlocks_of_le {column : ℤ} (h : s.indent ≤ column) : s.closeBlocks column = s := by
  obtain ⟨cursor, indent, indents, allowed, pending, around, tokens, count⟩ := s
  cases indents with
  | nil => simp [closeBlocks, closeBlocksFrom]
  | cons parent parents => simp [closeBlocks, closeBlocksFrom, not_lt.2 h]

theorem noteKey_lexer {p : Spot} {i l : ℕ} :
    (p.lexer i l).noteKey = some { p.lexer i l with pending := p.startedKey i l } := by
  cases h : p.keyAllowed <;>
    simp [noteKey, dropKey, Spot.lexer, Spot.startedKey, inFlow, h]

end Lexer

namespace Spot

variable {p q : Spot} {limit i l k : ℕ} {key v : Leaf} {rest : List Char}

/-- A key on one line that is not too long is still pending behind its text. -/
theorem refresh_behindScalar (h : v.chars.length ≤ 1024) :
    (p.behindScalar v rest i l).refresh = some (p.behindScalar v rest i l) := by
  have hstale : ¬i + 1024 < i + v.chars.length := by omega
  cases hallowed : p.keyAllowed <;>
    simp [Lexer.refresh, Lexer.refreshKey, Lexer.isStale, behindScalar, startedKey, lexer, hallowed,
      hstale]

/-- A key is read up to its colon. -/
theorem read_key (hkey : key.isQuoted = false) (hp : p.rest = key.chars ++ ':' :: rest)
    (hrest : atBlank rest = true) (hlimit : 1 ≤ limit) :
    (p.lexer i l).read limit = some (p.behindScalar key (':' :: rest) i l) := by
  obtain ⟨limit, rfl⟩ : ∃ n, limit = n + 1 := ⟨limit - 1, by omega⟩
  obtain ⟨⟨text, hne, hsafe, hshort⟩, isQuoted⟩ := key
  obtain rfl : isQuoted = false := hkey
  obtain ⟨c, cs, htext⟩ := List.exists_cons_of_ne_nil hne
  have hc : isSafe c = true := hsafe c (by simp [htext])
  have hchars : p.rest = c :: (cs ++ ':' :: rest) := by simp [hp, Leaf.chars, htext]
  have htoken : Lexer.token (limit + 1) (p.lexer i l) = Lexer.plain (limit + 1) (p.lexer i l) :=
    Lexer.token_of_safe hchars hc
  have hplain : Lexer.plain (limit + 1) (p.lexer i l) =
      some (p.behindScalar ⟨⟨text, hne, hsafe, hshort⟩, false⟩ (':' :: rest) i l) := by
    rw [Lexer.plain, Lexer.noteKey_lexer]
    simp only [lexer, hp, Leaf.chars, Bool.false_eq_true, if_false, Option.bind_eq_bind,
      Option.bind_some, Lexer.inFlow, List.isEmpty_nil, Bool.not_true,
      plainScalar_key hsafe hne hrest, Option.pure_def, Lexer.emit]
    simp [behindScalar, lexer, Leaf.chars, Leaf.token, Leaf.style]
  rw [Lexer.read, htoken, hplain, Option.bind_some, refresh_behindScalar]
  exact hshort.trans (by omega)

/-- The lexer stays in front of the colon that a key waits for. -/
theorem arrive_colon (hindent : p.indent ≤ p.column) (hlimit : 1 ≤ limit)
    (hshort : key.chars.length ≤ 1000) :
    (p.behindScalar key (':' :: rest) i l).arrive limit =
      some (p.behindScalar key (':' :: rest) i l) := by
  obtain ⟨limit, rfl⟩ : ∃ n, limit = n + 1 := ⟨limit - 1, by omega⟩
  have htoken : ∀ a i l col, Cursor.toToken false (limit + 1) a ⟨':' :: rest, i, l, col⟩ =
      (a, ⟨':' :: rest, i, l, col⟩) :=
    fun a i l col => Cursor.toToken_blanks (k := 0) (v := ':' :: rest) (by rfl)
  have harrive : (p.behindScalar key (':' :: rest) i l).arrive (limit + 1) =
      (p.behindScalar key (':' :: rest) i l).refresh.bind fun s =>
        some (s.closeBlocks ((p.column + key.chars.length : ℕ) : ℤ)) := by
    simp only [Lexer.arrive, behindScalar, lexer, Lexer.inFlow, List.isEmpty_nil, Bool.not_true,
      htoken, Option.bind_eq_bind, Option.pure_def]
  rw [harrive, refresh_behindScalar (by omega), Option.bind_some, Lexer.closeBlocks_of_le]
  simp only [behindScalar, lexer]
  push_cast
  omega

/-- The colon turns the pending scalar into a key. -/
theorem read_colon (hrest : atBlank rest = true) (hallowed : p.keyAllowed = true)
    (hne : key.chars ≠ []) : (p.behindScalar key (':' :: rest) i l).read limit =
      some ((p.behindKey key rest).lexer (i + key.chars.length + 1) l) := by
  have hcolumn : (p.column + key.chars.length == 0) = false := by
    have := List.length_pos_iff.2 hne
    simp only [beq_eq_false_iff_ne]
    omega
  have htoken : Lexer.token limit (p.behindScalar key (':' :: rest) i l) =
      (p.behindScalar key (':' :: rest) i l).value := by
    simp [Lexer.token, behindScalar, hcolumn, hrest]
  have hvalue : (p.behindScalar key (':' :: rest) i l).value =
      some ((p.behindKey key rest).lexer (i + key.chars.length + 1) l) := by
    have htwo : p.tokens.length + 1 + 1 - p.tokens.length = 2 := by omega
    by_cases hopen : p.indent < p.column <;>
      simp [Lexer.value, behindScalar, startedKey, hallowed, behindKey, opened, lexer, hopen, htwo,
        Lexer.emitAt, Lexer.openBlock, Lexer.inFlow, Lexer.punctuation, Lexer.emit, Cursor.skip,
        Cursor.onLine]
  rw [Lexer.read, htoken, hvalue, Option.bind_some]
  simp [Lexer.refresh, Lexer.refreshKey, lexer]

/-- From a key to what stands behind its colon. -/
theorem leads_key (hkey : key.isQuoted = false) (hp : p.rest = key.chars ++ ':' :: rest)
    (hrest : atBlank rest = true) (hallowed : p.keyAllowed = true) (hindent : p.indent ≤ p.column)
    (hlimit : 1 ≤ limit) (hlen : q.rest.length ≤ rest.length)
    (hq : ∀ i l, ∃ j k, ((p.behindKey key rest).lexer i l).arrive limit = some (q.lexer j k)) :
    Leads limit p q := by
  have hchars : key.chars = key.content.text.toList := by simp [Leaf.chars, hkey]
  have hne : key.chars ≠ [] := by rw [hchars]; exact key.content.nonempty
  have hshort : key.chars.length ≤ 1000 := by rw [hchars]; exact key.content.short
  intro i l
  obtain ⟨j, k, hq⟩ := hq (i + key.chars.length + 1) l
  refine ⟨2, j, k, ?_, ?_⟩
  · have := List.length_pos_iff.2 hne
    simp only [hp, List.length_append, List.length_cons]
    omega
  · refine .next (read_key hkey hp hrest hlimit) (by simp [behindScalar, Leaf.token])
      (arrive_colon hindent hlimit hshort) ?_
    refine .next (read_colon hrest hallowed hne) ?_ hq (.refl _)
    simp [behindKey, lexer]

theorem indent_opened (h : p.indent ≤ p.column) : p.opened.indent = p.column := by
  unfold opened
  split
  · rfl
  · omega

/-- From a key to the value on its line. -/
theorem leads_key_inline (hkey : key.isQuoted = false)
    (hp : p.rest = key.chars ++ ':' :: ' ' :: rest) (hrest : atToken rest = true)
    (hallowed : p.keyAllowed = true) (hindent : p.indent ≤ p.column)
    (hindents : ∀ n ∈ p.opened.indents, n ≤ (p.column : ℤ)) (hlimit : 1 ≤ limit) :
    Leads limit p { p.behindKey key rest with column := p.column + key.chars.length + 2 } := by
  refine leads_key hkey hp rfl hallowed hindent hlimit (by simp [behindKey]) fun i l => ?_
  have harrive := arrive_blanks (i := i) (l := l) (k := 1) (p := p.behindKey key (' ' :: rest))
    hlimit hrest rfl fun n hn => (hindents n hn).trans (by simp only [behindKey]; omega)
  rw [close_of_le (by simp only [behindKey, indent_opened hindent]; omega)] at harrive
  exact ⟨i + 1, l, harrive⟩

/-- From a key to what stands below it. -/
theorem leads_key_break (hkey : key.isQuoted = false)
    (hp : p.rest = key.chars ++ ':' :: '\n' :: (List.replicate k ' ' ++ rest))
    (hrest : atToken rest = true) (hallowed : p.keyAllowed = true) (hindent : p.indent ≤ p.column)
    (hindents : ∀ n ∈ p.opened.indents, n ≤ (k : ℤ)) (hlimit : 2 ≤ limit) :
    Leads limit p (close { p.behindKey key rest with column := k, keyAllowed := true }) := by
  refine leads_key hkey hp rfl hallowed hindent (by omega) ?_ fun i l => ?_
  · simp only [rest_close, behindKey, List.length_cons, List.length_append]
    omega
  · obtain ⟨j, harrive⟩ := arrive_break (i := i) (l := l)
      (p := p.behindKey key ('\n' :: (List.replicate k ' ' ++ rest))) hlimit hrest rfl hindents
    exact ⟨j, l + 1, harrive⟩

/-- A scalar in quotes leaves the line break behind it. -/
theorem read_quoted (hquoted : v.isQuoted = true) (hp : p.rest = v.chars ++ '\n' :: rest)
    (hlimit : p.rest.length < limit) :
    (p.lexer i l).read limit = some (p.behindScalar v ('\n' :: rest) i l) := by
  obtain ⟨limit, rfl⟩ : ∃ n, limit = n + 1 := ⟨limit - 1, by omega⟩
  obtain ⟨⟨text, hne, hsafe, hshort⟩, isQuoted⟩ := v
  obtain rfl : isQuoted = true := hquoted
  have hchars : p.rest = '\'' :: (text.toList ++ '\'' :: '\n' :: rest) := by simp [hp, Leaf.chars]
  have htoken : Lexer.token (limit + 1) (p.lexer i l) =
      Lexer.quoted (limit + 1) (p.lexer i l) true := by
    simp [Lexer.token, lexer, hchars, atMarker]
  have hlen : text.toList.length < limit + 1 := by
    simp only [hchars, List.length_cons, List.length_append] at hlimit
    omega
  have hscalar : quotedScalar true (limit + 1) (limit + 1) []
      (Cursor.next ⟨'\'' :: (text.toList ++ '\'' :: '\n' :: rest), i, l, p.column⟩) =
        some (text.toList.reverse, ⟨'\n' :: rest, i + 1 + text.toList.length + 1, l,
          p.column + 1 + text.toList.length + 1⟩) :=
    quotedScalar_line hsafe hlen
  have hquoted : Lexer.quoted (limit + 1) (p.lexer i l) true =
      some (p.behindScalar ⟨⟨text, hne, hsafe, hshort⟩, true⟩ ('\n' :: rest) i l) := by
    rw [Lexer.quoted, Lexer.keyStart, Lexer.noteKey_lexer]
    simp only [lexer, hchars, Option.bind_eq_bind, Option.bind_some, hscalar, Option.pure_def,
      Lexer.emit]
    simp [behindScalar, lexer, Leaf.chars, Leaf.token, Leaf.style, Nat.add_assoc, Nat.add_comm 1]
  rw [Lexer.read, htoken, hquoted, Option.bind_some, refresh_behindScalar]
  simp only [Leaf.chars, if_true, List.length_cons, List.length_append, List.length_nil]
  omega

/-- A scalar in plain style takes the line break and the next indentation. -/
theorem read_plain (hplain : v.isQuoted = false)
    (hp : p.rest = v.chars ++ '\n' :: (List.replicate k ' ' ++ rest)) (hrest : atToken rest = true)
    (hkey : p.keyAllowed = true → p.indent ≠ p.column) (hk : (k : ℤ) ≤ p.indent)
    (hlimit : p.rest.length < limit) :
    ∃ j, (p.lexer i l).read limit = some
      ((⟨rest, k, true, p.indent, p.indents, v.token :: p.tokens⟩ : Spot).lexer j (l + 1)) := by
  obtain ⟨limit, rfl⟩ : ∃ n, limit = n + 1 := ⟨limit - 1, by omega⟩
  obtain ⟨⟨text, hne, hsafe, hshort⟩, isQuoted⟩ := v
  obtain rfl : isQuoted = false := hplain
  obtain ⟨c, cs, htext⟩ := List.exists_cons_of_ne_nil hne
  have hc : isSafe c = true := hsafe c (by simp [htext])
  have hchars : p.rest = text.toList ++ '\n' :: (List.replicate k ' ' ++ rest) := by
    simp [hp, Leaf.chars]
  have htoken : Lexer.token (limit + 1) (p.lexer i l) = Lexer.plain (limit + 1) (p.lexer i l) :=
    Lexer.token_of_safe (by rw [lexer, hchars, htext, List.cons_append]) hc
  have hlen : k + 1 < limit + 1 := by
    simp only [hchars, List.length_cons, List.length_append, List.length_replicate] at hlimit
    omega
  have hscalar : plainScalar false (p.indent + 1).toNat (limit + 1) (limit + 1) [] Gap.none
      ⟨text.toList ++ '\n' :: (List.replicate k ' ' ++ rest), i, l, p.column⟩ =
        some (text.toList.reverse, true, ⟨rest, i + text.toList.length + 1 + k, l + 1, k⟩) :=
    plainScalar_line hsafe hne hrest (by omega) hlen
  refine ⟨i + text.toList.length + 1 + k, ?_⟩
  rw [Lexer.read, htoken, Lexer.plain, Lexer.noteKey_lexer]
  simp only [lexer, hchars, Option.bind_eq_bind, Option.bind_some, Lexer.inFlow, List.isEmpty_nil,
    Bool.not_true, hscalar, Option.pure_def, Lexer.emit]
  cases hallowed : p.keyAllowed with
  | false => simp [startedKey, hallowed, Lexer.refresh, Lexer.refreshKey, Leaf.token, Leaf.style]
  | true =>
    have hrequired : (p.indent == (p.column : ℤ)) = false := by simpa using hkey hallowed
    simp [startedKey, hallowed, Lexer.refresh, Lexer.refreshKey, Lexer.isStale, hrequired,
      Leaf.token, Leaf.style]

/-- **A scalar on the rest of a line leads to the next line.** -/
theorem leads_leaf (hp : p.rest = v.chars ++ '\n' :: (List.replicate k ' ' ++ rest))
    (hrest : atToken rest = true) (hkey : p.keyAllowed = true → p.indent ≠ p.column)
    (hk : (k : ℤ) ≤ p.indent) (hindents : ∀ n ∈ p.indents, n ≤ (k : ℤ))
    (hlimit : p.rest.length < limit) :
    Leads limit p (close ⟨rest, k, true, p.indent, p.indents, v.token :: p.tokens⟩) := by
  have hlen : 1 + rest.length ≤ p.rest.length := by
    simp only [hp, List.length_append, List.length_cons]
    omega
  have htwo : 2 ≤ limit := by omega
  intro i l
  cases hv : v.isQuoted with
  | true =>
    have hread := read_quoted (i := i) (l := l) hv hp hlimit
    have hpending : ∀ key ∈ p.startedKey i l, key.line ≤ l ∧ key.required = false := by
      intro key hmem
      unfold startedKey at hmem
      split at hmem
      · rename_i hallowed
        cases hmem
        exact ⟨le_rfl, by simpa using hkey hallowed⟩
      · cases hmem
    obtain ⟨j, harrive⟩ := arrive_of_break
      (s := p.behindScalar v ('\n' :: (List.replicate k ' ' ++ rest)) i l)
      htwo hrest rfl rfl hpending (by simp [behindScalar]) hindents
    exact ⟨1, j, l + 1, by simpa using hlen,
      .next hread (by simp [behindScalar, Leaf.token]) harrive (.refl _)⟩
  | false =>
    obtain ⟨j, hread⟩ := read_plain (i := i) (l := l) hv hp hrest hkey hk hlimit
    have harrive := arrive_blanks (i := j) (l := l + 1) (k := 0)
      (p := ⟨rest, k, true, p.indent, p.indents, v.token :: p.tokens⟩) (by omega : 1 ≤ limit) hrest
      rfl hindents
    exact ⟨1, j + 0, l + 1, by simpa using hlen,
      .next hread (by simp [lexer, Leaf.token]) harrive (.refl _)⟩

/-- Behind the dash of an item. -/
def behindDash (p : Spot) (rest : List Char) : Spot where
  rest := rest
  column := p.column + 1
  keyAllowed := true
  indent := p.indent
  indents := p.indents
  tokens := .blockEntry :: p.tokens

/-- From the dash of an item to the item. -/
theorem leads_dash (hp : p.rest = '-' :: ' ' :: rest) (hrest : atToken rest = true)
    (hallowed : p.keyAllowed = true) (hindent : p.indent = p.column)
    (hindents : ∀ n ∈ p.indents, n ≤ (p.column : ℤ)) (hlimit : 1 ≤ limit) :
    Leads limit p { p.behindDash rest with column := p.column + 2 } := by
  intro i l
  have hread : (p.lexer i l).read limit = some ((p.behindDash (' ' :: rest)).lexer (i + 1) l) := by
    simp [Lexer.read, Lexer.token, lexer, behindDash, hp, hallowed, hindent, atMarker, atBlank,
      isBlank, Lexer.blockEntry, Lexer.openAtIndicator, Lexer.openBlock, Lexer.inFlow,
      Lexer.dropKey, Lexer.punctuation, Lexer.emit, Cursor.skip, Cursor.onLine, Lexer.refresh,
      Lexer.refreshKey]
  have harrive := arrive_blanks (i := i + 1) (l := l) (k := 1) (p := p.behindDash (' ' :: rest))
    hlimit hrest rfl fun n hn => (hindents n hn).trans (by simp only [behindDash]; omega)
  rw [close_of_le (by simp only [behindDash, hindent]; omega)] at harrive
  refine ⟨1, i + 1 + 1, l, ?_, .next hread (by simp [behindDash, lexer]) harrive (.refl _)⟩
  simp only [hp, behindDash, List.length_cons]
  omega

/-- Behind the brackets of an empty list. -/
def behindBrackets (p : Spot) (rest : List Char) : Spot where
  rest := rest
  column := p.column + 2
  keyAllowed := false
  indent := p.indent
  indents := p.indents
  tokens := .flowSequenceEnd :: .flowSequenceStart :: p.tokens

/-- **An empty list leads to the next line.** -/
theorem leads_brackets (hp : p.rest = '[' :: ']' :: '\n' :: (List.replicate k ' ' ++ rest))
    (hrest : atToken rest = true) (hallowed : p.keyAllowed = false)
    (hindents : ∀ n ∈ p.indents, n ≤ (k : ℤ)) (hlimit : 2 ≤ limit) :
    Leads limit p (close
      { p.behindBrackets rest with column := k, keyAllowed := true }) := by
  intro i l
  -- between the brackets blocks stay open, so the lexer is at no spot
  let inside : Lexer := { p.lexer i l with
    cursor := ⟨']' :: '\n' :: (List.replicate k ' ' ++ rest), i + 1, l, p.column + 1⟩
    keyAllowed := true
    around := [none]
    tokens := .flowSequenceStart :: p.tokens
    count := p.tokens.length + 1 }
  have hopen : (p.lexer i l).read limit = some inside := by
    simp [Lexer.read, Lexer.token, lexer, hp, hallowed, atMarker, Lexer.openBracket,
      Lexer.noteKey, Lexer.punctuation, Lexer.emit, Cursor.skip, Cursor.onLine, Lexer.refresh,
      Lexer.refreshKey, inside]
  have hinside : inside.arrive limit = some inside := by
    obtain ⟨limit, rfl⟩ : ∃ n, limit = n + 1 := ⟨limit - 1, by omega⟩
    simp [Lexer.arrive, inside, Lexer.inFlow, Cursor.toToken, Cursor.skipWhile,
      Cursor.skipComment, Cursor.onLine, List.span_eq_takeWhile_dropWhile, isBreak, Lexer.refresh,
      Lexer.refreshKey, Lexer.closeBlocks, lexer]
  have hclose : inside.read limit =
      some ((p.behindBrackets ('\n' :: (List.replicate k ' ' ++ rest))).lexer (i + 2) l) := by
    simp [Lexer.read, Lexer.token, inside, lexer, behindBrackets, atMarker, Lexer.closeBracket,
      Lexer.dropKey, Lexer.punctuation, Lexer.emit, Cursor.skip, Cursor.onLine, Lexer.refresh,
      Lexer.refreshKey]
  obtain ⟨j, harrive⟩ := arrive_break (i := i + 2) (l := l)
    (p := p.behindBrackets ('\n' :: (List.replicate k ' ' ++ rest))) hlimit hrest rfl hindents
  refine ⟨2, j, l + 1, ?_, .next hopen (by simp [inside]) hinside
    (.next hclose (by simp [behindBrackets, lexer]) harrive (.refl _))⟩
  simp only [rest_close, hp, behindBrackets, List.length_cons, List.length_append]
  omega

end Spot

end BeaconReplay.Yaml
