import LayerGraph.Proofs.NamedModel
import LayerGraph.Proofs.Numerals
import Mathlib
/-!
# Identifiers of any ids

Ids are texts of any kind: empty, without a letter, a keyword, equal up to case or punctuation, or
equal to the numbered name of another id. Whatever is asked for, and in whatever order, the
identifiers are legal ones and stay apart.

* `IsIdentifier text`: a lower-case letter or an underscore, and then such letters, digits and
  underscores. All candidates of an id are of this form (`isIdentifier_candidateName`).
* `candidateName_not_mem_reserved`: no candidate is a keyword or an attribute of every module. What
  is put behind a reserved name, or behind a base name, ends no reserved name.
* `Names.IsAllotment names ids`: what the table is after several ids, whatever they are
  (`Names.IsAllotment.allot`).
* `identifiers_allocated`: all of this, of the answers to any calls.
-/

namespace LayerGraph
set_option autoImplicit false

/-! ## The pattern -/

def startsIdentifier (c : Char) : Bool := c.isLower || c = '_'

def continuesIdentifier (c : Char) : Bool := c.isLower || c.isDigit || c = '_'

/-- The text is of the pattern `[a-z_][a-z0-9_]*`. -/
structure IsIdentifier (text : String) : Prop where
  starts : text.toList.head?.any startsIdentifier = true
  continues : text.toList.all continuesIdentifier = true

theorem IsIdentifier.exists_cons {text : String} (h : IsIdentifier text) :
    ∃ c rest, text.toList = c :: rest ∧ startsIdentifier c = true := by
  obtain ⟨hstarts, -⟩ := h
  cases htext : text.toList with
  | nil => rw [htext] at hstarts; cases hstarts
  | cons c rest => rw [htext] at hstarts; exact ⟨c, rest, rfl, hstarts⟩

theorem IsIdentifier.append {text tail : String} (h : IsIdentifier text)
    (htail : tail.toList.all continuesIdentifier = true) : IsIdentifier (text ++ tail) := by
  obtain ⟨c, rest, htext, hc⟩ := h.exists_cons
  constructor
  · rw [String.toList_append, htext]
    exact hc
  · rw [String.toList_append, List.all_append, h.continues, htail]
    rfl

/-! ## Sanitized ids -/

theorem not_isUpper_of_isDigit {c : Char} (h : c.isDigit = true) : ¬ c.isUpper = true := by
  simp only [Char.isDigit, Char.isUpper, Bool.and_eq_true, decide_eq_true_eq, ge_iff_le,
    UInt32.le_iff_toNat_le] at h ⊢
  have hA : 'A'.val.toNat = 65 := rfl
  have h9 : '9'.val.toNat = 57 := rfl
  omega

theorem not_isDigit_of_isLower {c : Char} (h : c.isLower = true) : ¬ c.isDigit = true := by
  simp only [Char.isDigit, Char.isLower, Bool.and_eq_true, decide_eq_true_eq, ge_iff_le,
    UInt32.le_iff_toNat_le] at h ⊢
  have ha : 'a'.val.toNat = 97 := rfl
  have h9 : '9'.val.toNat = 57 := rfl
  omega

theorem not_isDigit_of_startsIdentifier {c : Char} (h : startsIdentifier c = true) :
    ¬ c.isDigit = true := by
  rcases Bool.or_eq_true_iff.1 h with hlower | hunderscore
  · exact not_isDigit_of_isLower hlower
  · rw [of_decide_eq_true hunderscore]
    decide

theorem continuesIdentifier_sanitizeChar (c : Char) :
    continuesIdentifier (sanitizeChar c) = true := by
  unfold sanitizeChar continuesIdentifier
  split
  · rename_i h
    rcases Bool.or_eq_true_iff.1 h with halpha | hdigit
    · rw [Char.isLower_toLower_eq_isAlpha, halpha]
      rfl
    · rw [Char.toLower_eq_of_not_isUpper (not_isUpper_of_isDigit hdigit), hdigit, Bool.or_true]
      rfl
  · rfl

/-- The characters of identifiers stand for themselves. -/
theorem sanitizeChar_eq_self {c : Char} (h : continuesIdentifier c = true) :
    sanitizeChar c = c := by
  simp only [continuesIdentifier, Bool.or_eq_true, decide_eq_true_eq] at h
  rcases h with (hlower | hdigit) | rfl
  · rw [sanitizeChar, if_pos (by simp [Char.isAlphanum, Char.isAlpha, hlower]),
      Char.toLower_eq_of_not_isUpper (Char.not_isUpper_of_isLower hlower)]
  · rw [sanitizeChar, if_pos (by simp [Char.isAlphanum, hdigit]),
      Char.toLower_eq_of_not_isUpper (not_isUpper_of_isDigit hdigit)]
  · rfl

theorem isIdentifier_sanitizeChars (id : List Char) :
    IsIdentifier (String.ofList (sanitizeChars id)) := by
  have hmap : (id.map sanitizeChar).all continuesIdentifier = true := by
    rw [List.all_map, List.all_eq_true]
    exact fun c _ => continuesIdentifier_sanitizeChar c
  unfold sanitizeChars
  split
  · exact ⟨by decide, by decide⟩
  · rename_i c rest hid
    rw [hid] at hmap
    split
    · constructor <;> rw [String.toList_ofList]
      · rfl
      · exact hmap
    · rename_i hdigit
      constructor <;> rw [String.toList_ofList]
      · have hc := List.all_eq_true.1 hmap c List.mem_cons_self
        simpa [startsIdentifier, continuesIdentifier, hdigit] using hc
      · exact hmap

theorem isIdentifier_sanitize (id : String) : IsIdentifier (sanitize id) := by
  have hchars := isIdentifier_sanitizeChars id.toList
  unfold sanitize
  dsimp only
  split
  · exact hchars.append (by decide)
  · exact hchars

theorem sanitizeChars_eq_self {text : String} (h : IsIdentifier text) :
    sanitizeChars text.toList = text.toList := by
  obtain ⟨c, rest, htext, hc⟩ := h.exists_cons
  have hmap : text.toList.map sanitizeChar = text.toList :=
    List.map_congr_left (fun c hc => sanitizeChar_eq_self (List.all_eq_true.1 h.continues c hc))
      |>.trans (List.map_id' _)
  unfold sanitizeChars
  rw [hmap, htext]
  exact if_neg (not_isDigit_of_startsIdentifier hc)

/-- Identifiers that are not keywords stay as they are. -/
theorem sanitize_eq_self {text : String} (h : IsIdentifier text) (hkeyword : text ∉ keywords) :
    sanitize text = text := by
  unfold sanitize
  dsimp only
  rw [sanitizeChars_eq_self h, String.ofList_toList, if_neg hkeyword]

/-! ## Reserved names -/

/-- The names that an identifier must not have. -/
def reserved : List String := keywords ++ moduleAttributes

/-- A tail that ends no reserved name makes a name that is not reserved. -/
theorem append_not_mem_reserved {tail : String}
    (h : ∀ name ∈ reserved, ¬ tail.toList <:+ name.toList) (text : String) :
    text ++ tail ∉ reserved :=
  fun hmem => h _ hmem ⟨text.toList, String.toList_append.symm⟩

theorem sanitize_not_mem_keywords (id : String) : sanitize id ∉ keywords := by
  unfold sanitize
  dsimp only
  split
  · intro hmem
    have hnot : ∀ name ∈ reserved, ¬ "_".toList <:+ name.toList := by decide
    exact append_not_mem_reserved hnot _ (List.mem_append_left _ hmem)
  · assumption

theorem sanitize_sanitize (id : String) : sanitize (sanitize id) = sanitize id :=
  sanitize_eq_self (isIdentifier_sanitize id) (sanitize_not_mem_keywords id)

theorem baseName_not_mem_reserved (id : String) : baseName id ∉ reserved := by
  unfold baseName
  dsimp only
  split
  · exact append_not_mem_reserved (by decide) _
  · rename_i hattribute
    exact List.mem_append.not.2 (not_or.2 ⟨sanitize_not_mem_keywords id, hattribute⟩)

/-- A number ends in a digit, and no reserved name does. -/
theorem append_repr_not_mem_reserved (text : String) (n : Nat) : text ++ n.repr ∉ reserved := by
  have hends : ∀ name ∈ reserved, name.toList.getLast?.any Char.isDigit = false := by decide
  have hne : Nat.toDigits 10 n ≠ [] := Nat.toDigits_ne_nil
  have hlast := Numeral.isDigit_of_mem_toDigits (List.getLast_mem hne)
  intro hmem
  have hnot := hends _ hmem
  rw [String.toList_append, Nat.toList_repr, List.getLast?_append,
    List.getLast?_eq_some_getLast hne, Option.some_or, Option.any_some, hlast] at hnot
  cases hnot

/-! ## Candidates -/

theorem isIdentifier_baseName (id : String) : IsIdentifier (baseName id) := by
  unfold baseName
  dsimp only
  split
  · exact (isIdentifier_sanitize id).append (by decide)
  · exact isIdentifier_sanitize id

theorem isIdentifier_candidateName (id : String) (n : Nat) :
    IsIdentifier (candidateName (baseName id) n) := by
  unfold candidateName
  split
  · exact isIdentifier_baseName id
  · refine ((isIdentifier_baseName id).append (by decide)).append ?_
    rw [Nat.toList_repr, List.all_eq_true]
    intro c hc
    rw [continuesIdentifier, Numeral.isDigit_of_mem_toDigits hc, Bool.or_true]
    rfl

theorem candidateName_not_mem_reserved (id : String) (n : Nat) :
    candidateName (baseName id) n ∉ reserved := by
  unfold candidateName
  split
  · exact baseName_not_mem_reserved id
  · exact append_repr_not_mem_reserved _ _

namespace Names

/-! ## Tables for several ids -/

variable {names : Names}

/-- The ids that have an identifier. -/
def ids (names : Names) : List String := names.given.map Prod.fst

theorem name?_eq_none_iff {id : String} : names.name? id = none ↔ id ∉ names.ids := by
  rw [name?, List.lookup_eq_none_iff, ids, List.mem_map]
  constructor
  · rintro h ⟨entry, hentry, rfl⟩
    exact absurd rfl (bne_iff_ne.1 (h entry hentry))
  · exact fun h entry hentry => bne_iff_ne.2 fun heq => h ⟨entry, hentry, heq.symm⟩

/-- The table has the identifiers of `ids` and no others, and each is a candidate of its id. -/
structure IsAllotment (names : Names) (ids : List String) : Prop where
  isTable : names.IsTable
  nodup : names.ids.Nodup
  mem_ids : ∀ id, id ∈ names.ids ↔ id ∈ ids
  candidate : ∀ id name, names.name? id = some name → ∃ n, name = candidateName (baseName id) n

theorem isAllotment_empty : ({} : Names).IsAllotment [] :=
  ⟨isTable_empty, .nil, fun _ => .rfl, fun _ _ h => nomatch h⟩

theorem IsAllotment.ident {ids : List String} (h : names.IsAllotment ids) (id : String) :
    (names.ident id).2.IsAllotment (ids ++ [id]) := by
  have htable := (ident_spec h.isTable id).1
  rcases names.ident_cases id with ⟨name, hname, heq⟩ | ⟨hnone, _, _, name, hfound, heq⟩
  · have hid : id ∈ ids := by
      rw [← h.mem_ids, ← not_not (a := id ∈ names.ids), ← name?_eq_none_iff, hname]
      exact Option.some_ne_none name
    rw [heq]
    refine ⟨h.isTable, h.nodup, fun other => ?_, h.candidate⟩
    rw [h.mem_ids, List.mem_append, List.mem_singleton]
    exact ⟨.inl, fun hother => hother.elim (fun hids => hids) fun heq => heq ▸ hid⟩
  · rw [heq] at htable ⊢
    refine ⟨htable, List.nodup_cons.2 ⟨name?_eq_none_iff.1 hnone, h.nodup⟩, fun other => ?_, ?_⟩
    · rw [List.mem_append, List.mem_singleton, ← h.mem_ids, or_comm]
      exact List.mem_cons
    · intro other found hother
      rw [name?, Table.lookup_cons_eq] at hother
      split at hother
      · rename_i hsame
        obtain ⟨n, hn⟩ := hfound.exists_candidate
        exact ⟨n, by rw [hsame, ← hn]; exact (Option.some.inj hother).symm⟩
      · exact h.candidate other found hother

theorem IsAllotment.allot {ids : List String} (h : names.IsAllotment ids) (more : List String) :
    (names.allot more).IsAllotment (ids ++ more) := by
  induction more generalizing names ids with
  | nil => rwa [List.append_nil]
  | cons id rest ih =>
    have hrest := ih (h.ident id)
    rwa [List.append_assoc, List.singleton_append] at hrest

/-- There are as many identifiers in use as different ids have asked. -/
theorem IsAllotment.length_used {ids : List String} (h : names.IsAllotment ids) :
    names.used.length = ids.dedup.length := by
  have hperm : names.ids.Perm ids.dedup :=
    (List.perm_ext_iff_of_nodup h.nodup ids.nodup_dedup).2 fun id => by
      rw [h.mem_ids, List.mem_dedup]
  calc names.used.length = names.ids.length := by rw [used, Names.ids, List.length_map, List.length_map]
    _ = ids.dedup.length := hperm.length_eq

/-- Each of the ids has an identifier. -/
theorem IsAllotment.name?_eq {ids : List String} (h : names.IsAllotment ids) {id : String}
    (hid : id ∈ ids) : names.name? id = some (names.nameOf id) := by
  cases hname : names.name? id with
  | none => exact absurd ((h.mem_ids id).2 hid) (name?_eq_none_iff.1 hname)
  | some name => rw [nameOf_eq hname]

/-! ## Calls -/

/-- A call for the identifier of an id, or for the variable of its output. -/
inductive Call where
  | ident (id : String)
  | output (id : String)
  deriving DecidableEq, Repr

namespace Call

def id : Call → String
  | ident id | output id => id

/-- The answer when the identifiers of all ids are known. -/
def spelled (nameOf : String → String) : Call → String
  | ident id => nameOf id
  | output id => nameOf id ++ "_out"

end Call

def answer (names : Names) : Call → String × Names
  | .ident id => names.ident id
  | .output id => names.output id

/-- The answers to calls that are made one after the other, and the names after them. -/
def answers (names : Names) : List Call → List String × Names
  | [] => ([], names)
  | call :: rest =>
    let (text, names) := names.answer call
    let (texts, names) := names.answers rest
    (text :: texts, names)

/-- An answer stays the right one, whatever is asked for later. -/
theorem answer_eq (h : names.IsTable) (call : Call) {later : Names}
    (hlater : (names.ident call.id).2.Extends later) :
    names.answer call = (call.spelled later.nameOf, (names.ident call.id).2) := by
  obtain ⟨-, -, hname⟩ := ident_spec h call.id
  have hnameOf := nameOf_eq (hlater _ _ hname)
  cases call with
  | ident id => rw [Call.spelled, show later.nameOf id = _ from hnameOf]; rfl
  | output id => rw [Call.spelled, show later.nameOf id = _ from hnameOf]; rfl

theorem answers_eq (h : names.IsTable) (calls : List Call) :
    names.answers calls =
      (calls.map (Call.spelled (names.allot (calls.map Call.id)).nameOf),
        names.allot (calls.map Call.id)) := by
  induction calls generalizing names with
  | nil => rfl
  | cons call rest ih =>
    obtain ⟨htable, -, -⟩ := ident_spec h call.id
    obtain ⟨-, hlater, -⟩ := allot_spec htable (rest.map Call.id)
    rw [answers, answer_eq h call hlater]
    dsimp only
    rw [ih htable]
    rfl

/-- The answers are legal: behind an identifier `_out` makes another, and ends no reserved name. -/
theorem IsAllotment.spelled {ids : List String} (h : names.IsAllotment ids) {call : Call}
    (hcall : call.id ∈ ids) :
    IsIdentifier (call.spelled names.nameOf) ∧ call.spelled names.nameOf ∉ reserved := by
  obtain ⟨n, hn⟩ := h.candidate call.id _ (h.name?_eq hcall)
  have hname : IsIdentifier (names.nameOf call.id) := hn ▸ isIdentifier_candidateName call.id n
  cases call with
  | ident id =>
    have hnot : names.nameOf id ∉ reserved := hn ▸ candidateName_not_mem_reserved id n
    exact ⟨hname, hnot⟩
  | output id => exact ⟨hname.append (by decide), append_not_mem_reserved (by decide) _⟩

end Names

open Names in
/-- Whatever calls are made of fresh names, and with whatever ids: each answer is what the id of the
call alone determines, and different ids have different identifiers and different variables. Every
answer is an identifier and no reserved name. An id without an identifier gets the first candidate
that is free, after at most as many tries as there were different ids before it, and one more; an id
that has one gets it without a search. Sanitizing a second time changes nothing. -/
theorem identifiers_allocated (calls : List Call) :
    (∃ nameOf : String → String,
      (({} : Names).answers calls).1 = calls.map (Call.spelled nameOf) ∧
        ∀ a ∈ calls.map Call.id, ∀ b ∈ calls.map Call.id, a ≠ b →
          nameOf a ≠ nameOf b ∧ nameOf a ++ "_out" ≠ nameOf b ++ "_out") ∧
      (∀ text ∈ (({} : Names).answers calls).1,
        IsIdentifier text ∧ text ∉ keywords ∧ text ∉ moduleAttributes) ∧
      (∀ id ∉ calls.map Call.id, ∃ tries ≤ (calls.map Call.id).dedup.length + 1,
        Found (({} : Names).answers calls).2.used (baseName id) 0 tries
          ((({} : Names).answers calls).2.ident id).1) ∧
      (∀ id ∈ calls.map Call.id,
        ((({} : Names).answers calls).2.ident id).2 = (({} : Names).answers calls).2) ∧
      ∀ id, sanitize (sanitize id) = sanitize id := by
  have h := isAllotment_empty.allot (calls.map Call.id)
  rw [List.nil_append] at h
  rw [answers_eq isTable_empty]
  dsimp only
  generalize ({} : Names).allot (calls.map Call.id) = names at h
  refine ⟨⟨names.nameOf, rfl, fun a ha b hb hne => ?_⟩, fun text htext => ?_, fun id hid => ?_,
    fun id hid => ?_, sanitize_sanitize⟩
  · have hnames : names.nameOf a ≠ names.nameOf b := fun heq =>
      hne (h.isTable a b _ (h.name?_eq ha) (heq ▸ h.name?_eq hb))
    exact ⟨hnames, fun heq => hnames ((String.append_left_inj _).1 heq)⟩
  · obtain ⟨call, hcall, rfl⟩ := List.mem_map.1 htext
    obtain ⟨hidentifier, hnot⟩ := h.spelled (List.mem_map_of_mem hcall)
    obtain ⟨hkeyword, hattribute⟩ := not_or.1 (List.mem_append.not.1 hnot)
    exact ⟨hidentifier, hkeyword, hattribute⟩
  · rcases names.ident_cases id with ⟨name, hname, -⟩ | ⟨-, tries, hle, name, hfound, heq⟩
    · rw [name?_eq_none_iff.2 ((h.mem_ids id).not.2 hid)] at hname
      cases hname
    · rw [h.length_used] at hle
      exact ⟨tries, hle, by rwa [heq]⟩
  · rw [ident_of_name? (h.name?_eq hid)]

open Names in
/-- The second id has the base name of the first, and the third the name that it was given. A
variable may be named as the identifier of another id. -/
example :
    (({} : Names).answers [.ident "A", .ident "a", .ident "a_2", .output "lambda", .ident "",
      .ident "train", .ident "lambda__out", .ident "a"]).1 =
      ["a", "a_2", "a_2_2", "lambda__out", "node", "train_layer", "lambda__out", "a_2"] := by
  decide +kernel

end LayerGraph
