import LayerGraph.Proofs.JsonValues
import Mathlib.Data.List.Forall2
import Mathlib.Tactic.SplitIfs
/-!
# The tokens of a written value

* `Json.tokens` are the tokens of a value, in the order in which they are written.
* `Scans cs tokens`: the machine passes over the characters from between two tokens and has then
  taken the tokens, except that a numeral or word at the end may wait for the next character.
* `Json.scans_chars`: the text of a value, compact or on lines, scans as the tokens of the value
  when the numbers in it are read back.
* `Token.inRange_of_scan?`: whatever the text, the numbers among its tokens are in range.
-/

namespace LayerGraph.Json
set_option autoImplicit false

/-! ## Texts and tokens of values -/

theorem itemChars_eq (level : Option Nat) (items : List Json) :
    itemChars level items = items.map (chars level) := by
  induction items with
  | nil => rfl
  | cons item rest ih => rw [itemChars, ih, List.map_cons]

theorem fieldChars_eq (level : Option Nat) (fields : List (String × Json)) :
    fieldChars level fields =
      fields.map fun field => quoted field.1 ++ (afterKey level ++ chars level field.2) := by
  induction fields with
  | nil => rfl
  | cons field rest ih => rw [fieldChars, ih, List.map_cons, List.append_assoc]

/-- Lists of tokens with commas between them. -/
def separated : List (List Token) → List Token
  | [] => []
  | first :: rest => first ++ rest.flatMap (.comma :: ·)

/-- Tokens of items behind a first one, and the mark that closes. -/
def upTo (close : Token) (items : List (List Token)) : List Token :=
  items.flatMap (Token.comma :: ·) ++ [close]

theorem upTo_nil (close : Token) : upTo close [] = [close] := rfl

theorem upTo_cons (close : Token) (item : List Token) (rest : List (List Token)) :
    upTo close (item :: rest) = .comma :: (item ++ upTo close rest) := by
  simp [upTo]

theorem separated_cons_append (close : Token) (item : List Token) (rest : List (List Token)) :
    separated (item :: rest) ++ [close] = item ++ upTo close rest := by
  rw [separated, List.append_assoc, upTo]

mutual

/-- The tokens of a value. -/
def tokens : Json → List Token
  | null => [.null]
  | bool value => [.bool value]
  | number value => [.number (some value)]
  | string value => [.string (some value)]
  | array items => .openBracket :: (separated (itemTokens items) ++ [.closeBracket])
  | object fields => .openBrace :: (separated (fieldTokens fields) ++ [.closeBrace])

def itemTokens : List Json → List (List Token)
  | [] => []
  | item :: rest => tokens item :: itemTokens rest

def fieldTokens : List (String × Json) → List (List Token)
  | [] => []
  | (key, value) :: rest => (.string (some key) :: .colon :: tokens value) :: fieldTokens rest

end

theorem itemTokens_eq (items : List Json) : itemTokens items = items.map tokens := by
  induction items with
  | nil => rfl
  | cons item rest ih => rw [itemTokens, ih, List.map_cons]

theorem fieldTokens_eq (fields : List (String × Json)) :
    fieldTokens fields =
      fields.map fun field => .string (some field.1) :: .colon :: field.2.tokens := by
  induction fields with
  | nil => rfl
  | cons field rest ih => rw [fieldTokens, ih, List.map_cons]

/-! ## The machine behind whole tokens -/

/-- The machine has taken the tokens, last first; the last may be a numeral or word that ends where
the next mark or blank stands. -/
inductive Scanner.Settled : Scanner → List Token → Prop
  | between (tokens : List Token) : Settled ⟨.between, tokens⟩ tokens
  | numeral {cs : List Char} {token : Token} {tokens : List Token}
      (h : numeralToken? cs.reverse = some token) : Settled ⟨.numeral cs, tokens⟩ (token :: tokens)
  | word {cs : List Char} {token : Token} {tokens : List Token}
      (h : wordToken? cs.reverse = some token) : Settled ⟨.word cs, tokens⟩ (token :: tokens)

/-- The character ends a numeral or word. -/
def Breaks (c : Char) : Prop := inNumeral c = false ∧ c.isLower = false

theorem Scanner.Settled.step {s : Scanner} {tokens : List Token} (h : s.Settled tokens) {c : Char}
    (hc : Breaks c) : s.step c = begin? tokens c := by
  cases h with
  | between => rfl
  | numeral h => simp only [Scanner.step, hc.1, h, Option.bind_some, Bool.false_eq_true, if_false]
  | word h => simp only [Scanner.step, hc.2, h, Option.bind_some, Bool.false_eq_true, if_false]

theorem Scanner.Settled.finish? {s : Scanner} {tokens : List Token} (h : s.Settled tokens) :
    s.finish? = some tokens.reverse := by
  cases h with
  | between => rfl
  | numeral h => simp only [Scanner.finish?, h, Option.map_some]
  | word h => simp only [Scanner.finish?, h, Option.map_some]

/-- From between two tokens the characters are scanned as the tokens. -/
def Scans (cs : List Char) (tokens : List Token) : Prop :=
  ∀ before, ∃ s, cs.foldlM Scanner.step ⟨.between, before⟩ = some s ∧
    s.Settled (tokens.reverse ++ before)

/-- Behind whole tokens the characters are scanned as the tokens. -/
def Follows (cs : List Char) (tokens : List Token) : Prop :=
  ∀ start before, Scanner.Settled start before → ∃ s, cs.foldlM Scanner.step start = some s ∧
    s.Settled (tokens.reverse ++ before)

variable {cs others : List Char} {taken more : List Token} {c : Char} {token : Token}

theorem Follows.of_breaks (h : Scans (c :: cs) taken) (hc : Breaks c) :
    Follows (c :: cs) taken := by
  intro start before hstart
  obtain ⟨s, hs, hsettled⟩ := h before
  refine ⟨s, ?_, hsettled⟩
  rw [List.foldlM_cons, hstart.step hc]
  exact hs

namespace Scans

theorem scan? (h : Scans cs taken) : Token.scan? cs = some taken := by
  obtain ⟨s, hs, hsettled⟩ := h []
  rw [Token.scan?, Scanner.start, hs, Option.bind_some, hsettled.finish?, List.append_nil,
    List.reverse_reverse]

theorem nil : Scans [] [] := fun before => ⟨_, rfl, .between before⟩

theorem append (h : Scans cs taken) (hothers : Follows others more) :
    Scans (cs ++ others) (taken ++ more) := by
  intro before
  obtain ⟨s, hs, hsettled⟩ := h before
  obtain ⟨last, hlast, hmore⟩ := hothers s _ hsettled
  refine ⟨last, ?_, ?_⟩
  · rw [List.foldlM_append, hs]
    exact hlast
  · rwa [List.reverse_append, List.append_assoc]

theorem blank (hc : isBlank c = true) (h : Scans cs taken) : Scans (c :: cs) taken := by
  intro before
  obtain ⟨s, hs, hsettled⟩ := h before
  refine ⟨s, ?_, hsettled⟩
  have hstep : Scanner.step ⟨.between, before⟩ c = some ⟨.between, before⟩ := if_pos hc
  rw [List.foldlM_cons, hstep]
  exact hs

theorem lineBreak (level : Option Nat) (h : Scans cs taken) :
    Scans (Json.lineBreak level ++ cs) taken := by
  cases level with
  | none => exact h
  | some level =>
    refine blank rfl ?_
    show Scans (List.replicate (2 * level) ' ' ++ cs) taken
    induction 2 * level with
    | zero => exact h
    | succ n ih => exact blank rfl ih

/-- A mark is no blank, quotation mark, digit or letter. -/
theorem begin?_of_markToken? (hc : markToken? c = some token) (before : List Token) :
    Scanner.begin? before c = some ⟨.between, token :: before⟩ := by
  unfold markToken? at hc
  split at hc <;> cases hc <;> rfl

theorem mark (hc : markToken? c = some token) (h : Scans cs taken) :
    Scans (c :: cs) (token :: taken) := by
  intro before
  obtain ⟨s, hs, hsettled⟩ := h (token :: before)
  refine ⟨s, ?_, ?_⟩
  · have hstep : Scanner.step ⟨.between, before⟩ c = some ⟨.between, token :: before⟩ :=
      begin?_of_markToken? hc before
    rw [List.foldlM_cons, hstep]
    exact hs
  · rwa [List.reverse_cons, List.append_assoc]

end Scans

/-! ## Words and numerals -/

theorem scans_null : Scans ['n', 'u', 'l', 'l'] [.null] := fun _ => ⟨_, rfl, .word rfl⟩

theorem scans_true : Scans ['t', 'r', 'u', 'e'] [.bool true] := fun _ => ⟨_, rfl, .word rfl⟩

theorem scans_false : Scans ['f', 'a', 'l', 's', 'e'] [.bool false] := fun _ => ⟨_, rfl, .word rfl⟩

theorem foldlM_inNumeral (h : ∀ c ∈ cs, inNumeral c = true) (read : List Char)
    (before : List Token) :
    cs.foldlM Scanner.step ⟨.numeral read, before⟩ =
      some ⟨.numeral (cs.reverse ++ read), before⟩ := by
  induction cs generalizing read with
  | nil => rfl
  | cons c rest ih =>
    have hstep : Scanner.step ⟨.numeral read, before⟩ c = some ⟨.numeral (c :: read), before⟩ :=
      if_pos (h c List.mem_cons_self)
    rw [List.foldlM_cons, hstep, List.reverse_cons, List.append_assoc]
    exact ih (fun other hother => h other (List.mem_cons_of_mem _ hother)) (c :: read)

theorem begin?_of_startsNumeral (hc : c = '-' ∨ c.isDigit = true) (before : List Token) :
    Scanner.begin? before c = some ⟨.numeral [c], before⟩ := by
  have hother : isBlank c = false ∧ c ≠ '"' := by
    rcases hc with rfl | hdigit
    · decide
    · constructor
      · simp only [isBlank, Bool.or_eq_false_iff, decide_eq_false_iff_not]
        refine ⟨⟨⟨?_, ?_⟩, ?_⟩, ?_⟩ <;> rintro rfl <;> exact absurd hdigit (by decide)
      · rintro rfl
        exact absurd hdigit (by decide)
  rw [Scanner.begin?, hother.1, if_neg (by decide), if_neg hother.2, if_pos hc]

theorem scans_numeral {n : Number} (h : n.IsReadBack) : Scans n.text.toList [.number (some n)] := by
  obtain ⟨numeral, hread, hnumber⟩ := h.exists_read?
  have hin := fun c => @Numeral.inNumeral_of_read? _ _ hread c
  obtain ⟨c, rest, htext, hc⟩ := Numeral.starts_of_read? hread
  intro before
  refine ⟨⟨.numeral (rest.reverse ++ [c]), before⟩, ?_, .numeral ?_⟩
  · have hstep : Scanner.step ⟨.between, before⟩ c = some ⟨.numeral [c], before⟩ :=
      begin?_of_startsNumeral hc before
    rw [htext, List.foldlM_cons, hstep]
    exact foldlM_inNumeral
      (fun other hother => hin other (htext ▸ List.mem_cons_of_mem _ hother)) [c] before
  · have hchars : (rest.reverse ++ [c]).reverse = n.text.toList := by
      rw [htext, List.reverse_append, List.reverse_reverse]
      rfl
    rw [hchars, numeralToken?, hread, Option.map_some, hnumber]

/-! ## Strings -/

theorem hexValue?_hexDigit : ∀ n < 16, hexValue? (hexDigit n) = some n := by decide

/-- Inside a string the characters are taken as one piece, which stands for `c`. -/
def TakenAs (cs : List Char) (c : Char) : Prop :=
  ∃ piece,
    (∀ pieces before, cs.foldlM Scanner.step ⟨.string pieces, before⟩ =
      some ⟨.string (piece :: pieces), before⟩) ∧
    ∀ rest, decodePieces? (piece :: rest) = (decodePieces? rest).map (c :: ·)

theorem takenAs_self (hquote : c ≠ '"') (hslash : c ≠ '\\') (hcontrol : ¬ c.toNat < 32) :
    TakenAs [c] c := by
  refine ⟨.char c, fun pieces before => ?_, fun _ => rfl⟩
  have hstep : Scanner.step ⟨.string pieces, before⟩ c =
      some ⟨.string (.char c :: pieces), before⟩ := by
    simp only [Scanner.step, if_neg hquote, if_neg hslash, if_neg hcontrol]
  rw [List.foldlM_cons, hstep]
  rfl

theorem takenAs_short {letter of : Char} (hc : c = of) (hletter : letter ≠ 'u')
    (h : shortEscape? letter = some of) : TakenAs ['\\', letter] c := by
  refine ⟨.char c, fun pieces before => ?_, fun _ => rfl⟩
  have hstep : Scanner.step ⟨.escape pieces, before⟩ letter =
      some ⟨.string (.char c :: pieces), before⟩ := by
    simp only [Scanner.step, if_neg hletter, h, Option.map_some, hc]
  show (Scanner.step ⟨.escape pieces, before⟩ letter).bind _ = _
  rw [hstep]
  rfl

theorem takenAs_unit (hcontrol : c.toNat < 32) :
    TakenAs ['\\', 'u', '0', '0', hexDigit (c.toNat / 16), hexDigit (c.toNat % 16)] c := by
  refine ⟨.unit c.toNat, fun pieces before => ?_, fun rest => ?_⟩
  · have hhigh : Scanner.step ⟨.unit pieces 2 0, before⟩ (hexDigit (c.toNat / 16)) =
        some ⟨.unit pieces 3 (c.toNat / 16), before⟩ := by
      simp [Scanner.step, hexValue?_hexDigit (c.toNat / 16) (by omega)]
    have hlow : Scanner.step ⟨.unit pieces 3 (c.toNat / 16), before⟩ (hexDigit (c.toNat % 16)) =
        some ⟨.string (.unit c.toNat :: pieces), before⟩ := by
      simp [Scanner.step, hexValue?_hexDigit (c.toNat % 16) (by omega), Nat.div_add_mod]
    show (Scanner.step ⟨.unit pieces 2 0, before⟩ (hexDigit (c.toNat / 16))).bind _ = _
    rw [hhigh, Option.bind_some, List.foldlM_cons, hlow]
    rfl
  · have hhigh : ¬(0xD800 ≤ c.toNat ∧ c.toNat < 0xDC00) := by omega
    have hlow : ¬(0xDC00 ≤ c.toNat ∧ c.toNat < 0xE000) := by omega
    rw [decodePieces?.eq_def]
    simp only [if_neg hhigh, if_neg hlow, Char.ofNat_toNat]

theorem takenAs_escaped (c : Char) : TakenAs (escaped c) c := by
  unfold escaped
  split_ifs with hquote hslash hbackspace hfeed hline hreturn htab hcontrol
  · exact takenAs_short hquote (by decide) rfl
  · exact takenAs_short hslash (by decide) rfl
  · exact takenAs_short hbackspace (by decide) rfl
  · exact takenAs_short hfeed (by decide) rfl
  · exact takenAs_short hline (by decide) rfl
  · exact takenAs_short hreturn (by decide) rfl
  · exact takenAs_short htab (by decide) rfl
  · exact takenAs_unit hcontrol
  · exact takenAs_self hquote hslash hcontrol

theorem exists_pieces (cs : List Char) : ∃ pieces,
    (∀ taken before, (cs.flatMap escaped).foldlM Scanner.step ⟨.string taken, before⟩ =
      some ⟨.string (pieces.reverse ++ taken), before⟩) ∧
    decodePieces? pieces = some cs := by
  induction cs with
  | nil => exact ⟨[], fun _ _ => rfl, rfl⟩
  | cons c rest ih =>
    obtain ⟨piece, hpiece, hc⟩ := takenAs_escaped c
    obtain ⟨pieces, hpieces, hrest⟩ := ih
    refine ⟨piece :: pieces, fun taken before => ?_, ?_⟩
    · rw [List.flatMap_cons, List.foldlM_append, hpiece, List.reverse_cons, List.append_assoc]
      exact hpieces (piece :: taken) before
    · rw [hc, hrest, Option.map_some]

/-- A string in quotation marks, whatever stands behind it. -/
theorem Scans.quoted (key : String) (h : Scans cs taken) :
    Scans (Json.quoted key ++ cs) (.string (some key) :: taken) := by
  intro before
  obtain ⟨pieces, hpieces, hkey⟩ := exists_pieces key.toList
  obtain ⟨s, hs, hsettled⟩ := h (.string (some key) :: before)
  refine ⟨s, ?_, ?_⟩
  · -- no escaped character is a quotation mark, so the string ends at the one behind it
    have hclose : Scanner.step ⟨.string (pieces.reverse ++ []), before⟩ '"' =
        some ⟨.between, .string (some key) :: before⟩ := by
      simp only [Scanner.step, if_pos, List.append_nil, List.reverse_reverse, hkey, Option.map_some,
        String.ofList_toList]
    have hsplit : Json.quoted key ++ cs = '"' :: (key.toList.flatMap escaped ++ '"' :: cs) := by
      simp [Json.quoted]
    rw [hsplit, List.foldlM_cons]
    show (key.toList.flatMap escaped ++ '"' :: cs).foldlM Scanner.step ⟨.string [], before⟩ = some s
    rw [List.foldlM_append, hpieces]
    show ('"' :: cs).foldlM Scanner.step ⟨.string (pieces.reverse ++ []), before⟩ = some s
    rw [List.foldlM_cons, hclose]
    exact hs
  · rwa [List.reverse_cons, List.append_assoc]

/-! ## Arrays and objects -/

/-- The marks that close an array or object end a numeral or word. -/
theorem breaks_comma : Breaks ',' := by unfold Breaks; decide

theorem breaks_lineBreak : Breaks '\n' := by unfold Breaks; decide

/-- The items behind the first, and the closing mark. -/
theorem follows_items (level inner : Option Nat) {closing : Char} {close : Token}
    (hclose : markToken? closing = some close) (hbreaks : Breaks closing)
    {items : List (List Char)} {itemTokens : List (List Token)}
    (h : List.Forall₂ Scans items itemTokens) :
    Follows
      (items.flatMap (',' :: Json.lineBreak inner ++ ·) ++ (Json.lineBreak level ++ [closing]))
      (upTo close itemTokens) := by
  have hend : Scans [closing] [close] := Scans.mark hclose Scans.nil
  -- what follows an item is a comma, a line break or the closing mark, and each of them breaks
  induction h with
  | nil =>
    cases level with
    | none => exact Follows.of_breaks hend hbreaks
    | some level => exact Follows.of_breaks (Scans.lineBreak (some level) hend) breaks_lineBreak
  | @cons item tokens rest restTokens hitem _ ih =>
    have htail := hitem.append ih
    have hcomma : Scans (',' :: (Json.lineBreak inner ++ (item ++ _))) (.comma :: (tokens ++ _)) :=
      Scans.mark rfl (Scans.lineBreak inner htail)
    have hfollows := Follows.of_breaks hcomma breaks_comma
    rw [upTo_cons]
    simpa [List.flatMap_cons] using hfollows

/-- Items between brackets, when each of them scans. -/
theorem scans_bracketed {level : Option Nat} {opening closing : Char} {openToken close : Token}
    (hopen : markToken? opening = some openToken) (hclose : markToken? closing = some close)
    (hbreaks : Breaks closing) {items : List (List Char)} {itemTokens : List (List Token)}
    (h : List.Forall₂ Scans items itemTokens) :
    Scans (bracketed level opening closing items)
      (openToken :: (separated itemTokens ++ [close])) := by
  cases h with
  | nil => exact Scans.mark hopen (Scans.mark hclose Scans.nil)
  | @cons item tokens rest restTokens hitem hrest =>
    have htail := hitem.append
      (follows_items level (level.map (· + 1)) hclose hbreaks hrest)
    have hall := Scans.mark hopen (Scans.lineBreak (level.map (· + 1)) htail)
    rw [separated_cons_append]
    simpa [bracketed] using hall

/-! ## Written values -/

/-- What stands between a key and its value. -/
theorem Scans.afterKey (level : Option Nat) (h : Scans cs taken) :
    Scans (Json.afterKey level ++ cs) (.colon :: taken) := by
  cases level with
  | none => exact Scans.mark rfl h
  | some level => exact Scans.mark rfl (Scans.blank rfl h)

theorem forall₂_scans {α : Type} {items : List α} {text : α → List Char}
    {tokensOf : α → List Token} (h : ∀ item ∈ items, Scans (text item) (tokensOf item)) :
    List.Forall₂ Scans (items.map text) (items.map tokensOf) := by
  rw [List.forall₂_map_left_iff, List.forall₂_map_right_iff, List.forall₂_same]
  exact h

/-- The text of a value scans as the tokens of the value. -/
theorem scans_chars {value : Json} {k : Nat} (h : value.raw.IsWithin Number.IsReadBack k)
    (level : Option Nat) : Scans (chars level value) value.tokens := by
  induction value using inductOn generalizing k level with
  | null => exact scans_null
  | bool value =>
    cases value with
    | true => exact scans_true
    | false => exact scans_false
  | number value =>
    cases h with
    | number hread => exact scans_numeral hread
  | string value =>
    have hquoted := Scans.quoted value Scans.nil
    rwa [List.append_nil] at hquoted
  | array items ih =>
    obtain ⟨k, rfl⟩ := exists_succ_of_isWithin_array h
    rw [isWithin_array_iff] at h
    rw [chars, tokens, itemChars_eq, itemTokens_eq]
    exact scans_bracketed rfl rfl ⟨rfl, rfl⟩
      (forall₂_scans fun item hitem => ih item hitem (h item hitem) _)
  | object fields ih =>
    obtain ⟨k, rfl⟩ := exists_succ_of_isWithin_object h
    rw [isWithin_object_iff] at h
    rw [chars, tokens, fieldChars_eq, fieldTokens_eq]
    exact scans_bracketed rfl rfl ⟨rfl, rfl⟩
      (forall₂_scans fun field hfield =>
        (Scans.quoted field.1 ((ih field hfield (h field hfield) _).afterKey _)))

/-! ## Tokens that are read -/

/-- A number among the tokens is in range. -/
def Token.InRange : Token → Prop
  | .number (some value) => value.InRange
  | _ => True

namespace Scanner

/-- The numbers that the machine has taken are in range. -/
def InRange (s : Scanner) : Prop := ∀ token ∈ s.tokens, token.InRange

theorem inRange_of_numeralToken? {cs : List Char} {token : Token}
    (h : numeralToken? cs = some token) : token.InRange := by
  obtain ⟨numeral, -, rfl⟩ := Option.map_eq_some_iff.1 h
  cases hnumber : numeral.number? with
  | none => trivial
  | some number => exact Numeral.inRange_of_number? hnumber

theorem inRange_of_wordToken? {cs : List Char} {token : Token} (h : wordToken? cs = some token) :
    token.InRange := by
  unfold wordToken? at h
  split at h <;> cases h <;> trivial

theorem inRange_of_markToken? {c : Char} {token : Token} (h : markToken? c = some token) :
    token.InRange := by
  unfold markToken? at h
  split at h <;> cases h <;> trivial

theorem inRange_of_begin? {tokens : List Token} {c : Char} {s : Scanner}
    (htokens : ∀ token ∈ tokens, token.InRange) (h : begin? tokens c = some s) : s.InRange := by
  unfold begin? at h
  split_ifs at h
  · obtain rfl := Option.some.inj h
    exact htokens
  · obtain rfl := Option.some.inj h
    exact htokens
  · obtain rfl := Option.some.inj h
    exact htokens
  · obtain rfl := Option.some.inj h
    exact htokens
  · obtain ⟨token, htoken, rfl⟩ := Option.map_eq_some_iff.1 h
    exact List.forall_mem_cons.2 ⟨inRange_of_markToken? htoken, htokens⟩

theorem inRange_of_step {s next : Scanner} {c : Char} (hs : s.InRange) (h : s.step c = some next) :
    next.InRange := by
  obtain ⟨mode, tokens⟩ := s
  cases mode with
  | between => exact inRange_of_begin? hs h
  | string pieces =>
    simp only [step] at h
    split_ifs at h
    · obtain rfl := Option.some.inj h
      exact List.forall_mem_cons.2 ⟨trivial, hs⟩
    · obtain rfl := Option.some.inj h
      exact hs
    · obtain rfl := Option.some.inj h
      exact hs
  | escape pieces =>
    simp only [step] at h
    split_ifs at h
    · obtain rfl := Option.some.inj h
      exact hs
    · obtain ⟨piece, -, rfl⟩ := Option.map_eq_some_iff.1 h
      exact hs
  | unit pieces digits value =>
    obtain ⟨digit, -, rfl⟩ := Option.map_eq_some_iff.1 h
    dsimp only
    split <;> exact hs
  | numeral cs =>
    simp only [step] at h
    split_ifs at h
    · obtain rfl := Option.some.inj h
      exact hs
    · obtain ⟨token, htoken, hbegin⟩ := Option.bind_eq_some_iff.1 h
      exact inRange_of_begin?
        (List.forall_mem_cons.2 ⟨inRange_of_numeralToken? htoken, hs⟩) hbegin
  | word cs =>
    simp only [step] at h
    split_ifs at h
    · obtain rfl := Option.some.inj h
      exact hs
    · obtain ⟨token, htoken, hbegin⟩ := Option.bind_eq_some_iff.1 h
      exact inRange_of_begin?
        (List.forall_mem_cons.2 ⟨inRange_of_wordToken? htoken, hs⟩) hbegin

theorem inRange_of_foldlM {cs : List Char} {s last : Scanner} (hs : s.InRange)
    (h : cs.foldlM step s = some last) : last.InRange := by
  induction cs generalizing s with
  | nil =>
    obtain rfl := Option.some.inj h
    exact hs
  | cons c rest ih =>
    rw [List.foldlM_cons] at h
    obtain ⟨next, hnext, hrest⟩ := Option.bind_eq_some_iff.1 h
    exact ih (inRange_of_step hs hnext) hrest

theorem inRange_of_finish? {s : Scanner} {tokens : List Token} (hs : s.InRange)
    (h : s.finish? = some tokens) : ∀ token ∈ tokens, token.InRange := by
  obtain ⟨mode, taken⟩ := s
  have hreverse : ∀ {others : List Token}, (∀ token ∈ others, token.InRange) →
      ∀ token ∈ others.reverse, token.InRange := fun hothers token htoken =>
    hothers token (List.mem_reverse.1 htoken)
  cases mode with
  | between =>
    obtain rfl := Option.some.inj h
    exact hreverse hs
  | numeral cs =>
    obtain ⟨token, htoken, rfl⟩ := Option.map_eq_some_iff.1 h
    exact hreverse (List.forall_mem_cons.2 ⟨inRange_of_numeralToken? htoken, hs⟩)
  | word cs =>
    obtain ⟨token, htoken, rfl⟩ := Option.map_eq_some_iff.1 h
    exact hreverse (List.forall_mem_cons.2 ⟨inRange_of_wordToken? htoken, hs⟩)
  | string => cases h
  | escape => cases h
  | unit => cases h

end Scanner

/-- The numbers among the tokens of a text are in range. -/
theorem Token.inRange_of_scan? {cs : List Char} {tokens : List Token}
    (h : Token.scan? cs = some tokens) : ∀ token ∈ tokens, token.InRange := by
  obtain ⟨s, hs, hfinish⟩ := Option.bind_eq_some_iff.1 h
  have hstart : Scanner.start.InRange := fun token htoken => by cases htoken
  exact Scanner.inRange_of_finish? (Scanner.inRange_of_foldlM hstart hs) hfinish

end LayerGraph.Json
