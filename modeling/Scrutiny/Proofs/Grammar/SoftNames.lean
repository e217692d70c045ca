/-
Words that are reserved in places stay names everywhere else.

`match`, `case` and `type` are names, and statements of theirs are tried before expressions
are, so `match (x)` or `type [i] = v` might be taken for the beginning of one.  They are not:
put three other names in the place of these words (`StandIns`), so that no such statement can
be meant.  If the stream can be read then, it is read the same way as it stands, the words
put back into the module (`soft_words_stay_names`).

The stand-ins are names that are reserved nowhere, which the words themselves are not.  With
`type` for `match` a type alias would be read in `match X = int`, where there is none.
-/
import Scrutiny.Proofs.Grammar.StmtLeaves
import Scrutiny.Proofs.Grammar.StmtRenaming
import Scrutiny.Proofs.Syntax.Visits
import Scrutiny.Proofs.Token.Lossless

namespace Scrutiny

/-- For each word a name that can stand in for it in a stream. -/
structure StandIns (tokens : List Lexeme) where
  name : SoftWord → String
  distinct : Function.Injective name
  identifier : ∀ word, IsIdentifier (name word).toList
  unreserved : ∀ word other : SoftWord, name word ≠ other.text
  unused : ∀ word, ∀ lexeme ∈ tokens, lexeme.token ≠ .name (name word)

/-- Replace one spelling of the words by another. -/
def SoftWord.respell (old new : SoftWord → String) (text : String) : String :=
  match [match_, case_, type_].find? (old · == text) with
  | some word => new word
  | none => text

namespace SoftWord

variable {old new : SoftWord → String}

theorem text_injective : Function.Injective text := by
  intro word other heq
  cases word <;> cases other <;> first | rfl | simp [text] at heq

theorem respell_word (hold : Function.Injective old) (word : SoftWord) :
    respell old new (old word) = new word := by
  have hfind : [match_, case_, type_].find? (old · == old word) = some word := by
    cases word <;> simp [hold.eq_iff]
  rw [respell, hfind]

theorem respell_other {text : String} (h : ∀ word, old word ≠ text) :
    respell old new text = text := by
  simp [respell, h]

end SoftWord

namespace StandIns

variable {tokens : List Lexeme} (σ : StandIns tokens)

/-- The stand-ins for the words, and other names as they are. -/
def away : String → String := SoftWord.respell SoftWord.text σ.name

/-- The words for their stand-ins, and other names as they are. -/
def back : String → String := SoftWord.respell σ.name SoftWord.text

/-- A name is one of the words and gets its stand-in, or none of them and stays. -/
theorem away_cases (text : String) :
    (∃ word : SoftWord, word.text = text ∧ σ.away text = σ.name word) ∨
      (∀ word : SoftWord, word.text ≠ text) ∧ σ.away text = text := by
  by_cases hword : ∃ word : SoftWord, word.text = text
  · obtain ⟨word, rfl⟩ := hword
    exact .inl ⟨word, rfl, SoftWord.respell_word SoftWord.text_injective word⟩
  · have hother := not_exists.mp hword
    exact .inr ⟨hother, SoftWord.respell_other hother⟩

theorem back_away {text : String} (h : ∀ word, σ.name word ≠ text) :
    σ.back (σ.away text) = text := by
  rcases σ.away_cases text with ⟨word, rfl, haway⟩ | ⟨-, haway⟩
  · rw [haway]
    exact SoftWord.respell_word σ.distinct word
  · rw [haway]
    exact SoftWord.respell_other h

/-- Putting the words back gives the stream again. -/
theorem map_back_away :
    (tokens.map (Lexeme.rename σ.away)).map (Lexeme.rename σ.back) = tokens := by
  rw [List.map_map]
  refine (List.map_congr_left fun lexeme hlexeme => ?_).trans (List.map_id tokens)
  obtain ⟨token, span⟩ := lexeme
  cases token with
  | name text =>
    have hunused (word : SoftWord) : σ.name word ≠ text :=
      fun heq => σ.unused word _ hlexeme (by rw [heq])
    simp [Lexeme.rename, σ.back_away hunused]
  | _ => rfl

theorem back_star : σ.back "*" = "*" := by
  refine SoftWord.respell_other fun word hword => ?_
  have hidentifier := σ.identifier word
  rw [hword] at hidentifier
  exact hidentifier.not_mem (c := '*') (by decide) (by decide) (by simp)

/-- With the stand-ins in it a stream has no word that is reserved somewhere. -/
theorem ordinary (hnames : ∀ lexeme ∈ tokens, ∀ text, lexeme.token = .name text →
    IsIdentifier text.toList) : Ordinary (tokens.map (Lexeme.rename σ.away)) := by
  have haway {lexeme : Lexeme} (hlexeme : lexeme ∈ tokens.map (Lexeme.rename σ.away))
      {text : String} (htext : lexeme.token = .name text) :
      IsIdentifier text.toList ∧ ∀ word : SoftWord, text ≠ word.text := by
    obtain ⟨⟨token, span⟩, hmem, rfl⟩ := List.mem_map.mp hlexeme
    cases token with
    | name old =>
      obtain rfl : σ.away old = text := by simpa [Lexeme.rename] using htext
      rcases σ.away_cases old with ⟨word, -, hname⟩ | ⟨hother, hname⟩
      · rw [hname]
        exact ⟨σ.identifier word, σ.unreserved word⟩
      · rw [hname]
        exact ⟨hnames _ hmem old rfl, fun word heq => hother word heq.symm⟩
    | _ => cases htext
  exact ⟨fun _ hlexeme _ htext => (haway hlexeme htext).1,
    fun _ hlexeme word htext => (haway hlexeme htext).2 word rfl⟩

end StandIns

/--
**Words that are reserved in places stay names.**  If a stream can be read with three other
names in the place of these words, it can be read as it stands, and gives the module that was
read with the words put back.
-/
theorem soft_words_stay_names {tokens : List Lexeme}
    (hnames : ∀ lexeme ∈ tokens, ∀ text, lexeme.token = .name text → IsIdentifier text.toList)
    (σ : StandIns tokens) {size : Nat} {module : Module}
    (h : parseTokens (tokens.map (Lexeme.rename σ.away)) size = .ok module) :
    parseTokens tokens size = .ok (module.rename σ.back) := by
  obtain ⟨⟨last, hread⟩, htarget⟩ := parseTokens_eq_ok.mp h
  have hcarries := Grammar.moduleUpTo_carries (n := tokens.length) (by simp) (σ.ordinary hnames)
    σ.back_star
  rw [List.length_map] at hread
  have hstart : (Cursor.start (tokens.map (Lexeme.rename σ.away))).rename σ.back
      = .start tokens := by
    rw [Cursor.start, Cursor.rename, σ.map_back_away]
    rfl
  have htarget' : (module.rename σ.back).targetFault? = none := by
    have hrecast := Module.targetFault?_recast (.rename σ.back) module.body
    rw [htarget] at hrecast
    rw [Module.rename, renameBlock_eq]
    exact hrecast
  obtain ⟨-, _, rfl, hagain⟩ := hcarries List.suffix_rfl hread
  refine parseTokens_eq_ok.mpr ⟨⟨last.rename σ.back, ?_⟩, htarget'⟩
  rw [← hstart]
  exact hagain trivial

/-- The first letter of a word. -/
def SoftWord.initial : SoftWord → String
  | match_ => "m"
  | case_ => "c"
  | type_ => "t"

/-- The first letters of the words, in a stream that does not use them. -/
def StandIns.initials {tokens : List Lexeme}
    (h : ∀ word : SoftWord, ∀ lexeme ∈ tokens, lexeme.token ≠ .name word.initial) :
    StandIns tokens where
  name := SoftWord.initial
  distinct := by
    intro word other heq
    cases word <;> cases other <;> first | rfl | simp [SoftWord.initial] at heq
  identifier := by
    intro word
    cases word <;> simp [SoftWord.initial, IsIdentifier] <;> decide
  unreserved := by
    intro word other
    cases word <;> cases other <;> simp [SoftWord.initial, SoftWord.text]
  unused := h

/-- The words as a function, an argument, operands, subscripted and annotated. -/
theorem soft_words_stay_names_operands : ∃ stream module, ∃ σ : StandIns stream.tokens,
    tokenize "match (case)\ntype [match] = match - type\nmatch: case\n" = .ok stream ∧
      parseTokens (stream.tokens.map (Lexeme.rename σ.away)) 0 = .ok module ∧
      parseTokens stream.tokens 0 = .ok (module.rename σ.back) := by
  generalize hsource : "match (case)\ntype [match] = match - type\nmatch: case\n" = source
  have hok : (match tokenize source with
      | .ok stream =>
        (stream.tokens.all fun lexeme => [.match_, .case_, .type_].all fun word : SoftWord =>
          lexeme.token != .name word.initial) &&
        (parseTokens (stream.tokens.map
          (Lexeme.rename (SoftWord.respell SoftWord.text SoftWord.initial))) 0).toOption.isSome
      | .error _ => false) = true := by
    rw [← hsource]
    decide +kernel
  cases hstream : tokenize source with
  | error errors => simp [hstream] at hok
  | ok stream =>
    simp only [hstream, Bool.and_eq_true, List.all_eq_true, bne_iff_ne] at hok
    obtain ⟨hunused, hparse⟩ := hok
    let σ : StandIns stream.tokens := .initials fun word lexeme hlexeme =>
      hunused lexeme hlexeme word (by cases word <;> simp)
    change (parseTokens (stream.tokens.map (Lexeme.rename σ.away)) 0).toOption.isSome = true
      at hparse
    cases hmodule : parseTokens (stream.tokens.map (Lexeme.rename σ.away)) 0 with
    | error errors => simp [hmodule, Except.toOption] at hparse
    | ok module =>
      exact ⟨stream, module, σ, rfl, hmodule,
        soft_words_stay_names (tokenize_isIdentifier hstream) σ hmodule⟩

/-- A word is no stand-in for another: with `type` for `match` a stream can be read that cannot
be read as it stands, though the three names are distinct identifiers and none is in it. -/
theorem soft_word_no_stand_in : ∃ name : SoftWord → String, Function.Injective name ∧
    (∀ word, IsIdentifier (name word).toList) ∧ ∃ stream,
      tokenize "match X = int\n" = .ok stream ∧
      (∀ word, ∀ lexeme ∈ stream.tokens, lexeme.token ≠ .name (name word)) ∧
      (∃ module, parseTokens (stream.tokens.map
        (Lexeme.rename (SoftWord.respell SoftWord.text name))) 14 = .ok module) ∧
      ∀ module, parseTokens stream.tokens 14 ≠ .ok module := by
  let name : SoftWord → String
    | .match_ => "type"
    | word => word.initial
  have hinjective : Function.Injective name := by
    intro word other heq
    cases word <;> cases other <;> first | rfl | simp [name, SoftWord.initial] at heq
  have hidentifier (word : SoftWord) : IsIdentifier (name word).toList := by
    cases word <;> simp [name, SoftWord.initial, IsIdentifier] <;> decide
  refine ⟨name, hinjective, hidentifier, ?_⟩
  generalize hsource : "match X = int\n" = source
  have hok : (match tokenize source with
      | .ok stream =>
        (stream.tokens.all fun lexeme => [.match_, .case_, .type_].all fun word : SoftWord =>
          lexeme.token != .name (name word)) &&
        (parseTokens (stream.tokens.map
          (Lexeme.rename (SoftWord.respell SoftWord.text name))) 14).toOption.isSome &&
        (parseTokens stream.tokens 14).toOption.isNone
      | .error _ => false) = true := by
    rw [← hsource]
    decide +kernel
  cases hstream : tokenize source with
  | error errors => simp [hstream] at hok
  | ok stream =>
    simp only [hstream, Bool.and_eq_true, List.all_eq_true, bne_iff_ne] at hok
    obtain ⟨⟨hunused, haway⟩, hnone⟩ := hok
    refine ⟨stream, rfl, fun word lexeme hlexeme => ?_, ?_, fun module hmodule => ?_⟩
    · exact hunused lexeme hlexeme word (by cases word <;> simp)
    · cases hmodule : parseTokens (stream.tokens.map
          (Lexeme.rename (SoftWord.respell SoftWord.text name))) 14 with
      | error errors => simp [hmodule, Except.toOption] at haway
      | ok module => exact ⟨module, rfl⟩
    · simp [hmodule, Except.toOption] at hnone

end Scrutiny
