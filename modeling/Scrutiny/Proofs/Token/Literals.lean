/-
What string literals are.

A literal is described by how it is read, apart from how the scanner looks for its end.  A
reader goes through a body by units: a backslash with what it protects, or one other
character (`Takes`).  What stands where it comes to between units is unprotected
(`Passes`), and a delimiter closes a body if the reader comes to it and to none before it
(`Closes`).

The searches for one closing quote and for three go by the same units (`Finds`), so each
finds the body that a reader does (`Finds.sound`, `Finds.complete`).  With the letters in
front and the choice between the delimiters, that is what the scanner takes for a literal
(`length?_eq_some_iff`).  What is behind a literal has no part in this, but that it may make
one with three quotes of it.
-/
import Scrutiny.Proofs.Token.Runs

namespace Scrutiny

namespace Quoted

variable {c q : Char} {cs letters : List Char} {n : Nat}

/-! ### Quotes and backslashes -/

theorem isQuote_ne_backslash (hq : isQuote q = true) : q ≠ '\\' := by
  rintro rfl
  cases hq

theorem isQuote_ne_newline (h : isQuote q = true) : q ≠ '\n' := by
  rintro rfl
  simp [isQuote] at h

/-- A character that is no backslash closes the literal, breaks it off or is part of it. -/
theorem closeOne?_plain (hc : c ≠ '\\') (cs : List Char) :
    closeOne? q (c :: cs) = if c = q then some 1 else if c = '\r' ∨ c = '\n' then none
      else (closeOne? q cs).map (· + 1) := by
  rw [closeOne?]
  · exact fun hback => absurd hback hc
  · exact fun _ hback => absurd hback hc
  · exact fun _ _ hback => absurd hback hc

theorem closeThree?_plain (hc : c ≠ '\\') (cs : List Char) :
    closeThree? q (c :: cs) = if c = q ∧ cs.take 2 = [q, q] then some 3
      else (closeThree? q cs).map (· + 1) := by
  rw [closeThree?]
  · exact fun hback => absurd hback hc
  · exact fun _ _ hback => absurd hback hc

/-! ### Reading a body -/

/-- What a reader takes at once in front of some characters: a backslash and the character
it protects, the two of a CRLF counting as one, or any other character. -/
inductive Takes : List Char → List Char → Prop
  | ending (after : List Char) : Takes ['\\', '\r', '\n'] after
  | escape {c : Char} {after : List Char} (hc : c = '\r' → after.head? ≠ some '\n') :
      Takes ['\\', c] after
  | plain {c : Char} {after : List Char} (hc : c ≠ '\\') : Takes [c] after

/-- A reader passes over the first characters, unit by unit, and comes to stand before the
second. -/
inductive Passes : List Char → List Char → Prop
  | nil (ahead : List Char) : Passes [] ahead
  | cons {unit read ahead : List Char} (hunit : Takes unit (read ++ ahead))
      (h : Passes read ahead) : Passes (unit ++ read) ahead

/-- What is ahead of the reader has a property wherever it stands in a body, before its end. -/
def Along (P : List Char → Prop) (body after : List Char) : Prop :=
  ∀ read ahead, body = read ++ ahead → ahead ≠ [] → Passes read (ahead ++ after) →
    P (ahead ++ after)

/-- A delimiter closes a body.  The reader comes to it, and on its way there meets neither the
delimiter nor a forbidden character. -/
structure Closes (delimiter forbidden body : List Char) : Prop where
  passes : Passes body delimiter
  first : Along (fun ahead => ¬ delimiter <+: ahead) body delimiter
  allowed : Along (fun ahead => ∀ c ∈ ahead.head?, c ∉ forbidden) body delimiter

section

variable {unit rest body after delimiter forbidden : List Char} {P : List Char → Prop}

theorem Takes.ne_nil (h : Takes unit rest) : unit ≠ [] := by
  cases h <;> simp

/-- Only one unit can be taken. -/
theorem Takes.unique {other next : List Char} (h : Takes unit rest) (hother : Takes other next)
    (heq : unit ++ rest = other ++ next) : unit = other := by
  cases h with
  | ending =>
    cases hother with
    | ending => rfl
    | escape hc =>
      simp only [List.cons_append, List.nil_append, List.cons.injEq, true_and] at heq
      obtain ⟨rfl, rfl⟩ := heq
      exact absurd rfl (hc rfl)
    | plain hc => exact absurd (List.cons.inj heq).1.symm hc
  | escape hc =>
    cases hother with
    | ending =>
      simp only [List.cons_append, List.nil_append, List.cons.injEq, true_and] at heq
      obtain ⟨rfl, rfl⟩ := heq
      exact absurd rfl (hc rfl)
    | escape =>
      simp only [List.cons_append, List.nil_append, List.cons.injEq, true_and] at heq
      rw [heq.1]
    | plain hc => exact absurd (List.cons.inj heq).1.symm hc
  | plain hc =>
    cases hother with
    | ending | escape => exact absurd (List.cons.inj heq).1 hc
    | plain => rw [(List.cons.inj heq).1]

/-- Of what follows, a unit depends on the first character only. -/
theorem Takes.of_head (h : Takes unit rest) (hhead : rest.head? = after.head?) :
    Takes unit after := by
  cases h with
  | ending => exact .ending after
  | escape hc => exact .escape (hhead ▸ hc)
  | plain hc => exact .plain hc

/-- There is a unit at the front, unless a backslash has nothing to protect. -/
theorem exists_takes (hne : cs ≠ []) (halone : cs ≠ ['\\']) :
    ∃ unit rest, cs = unit ++ rest ∧ Takes unit rest := by
  match cs with
  | [] => exact absurd rfl hne
  | c :: rest =>
    by_cases hc : c = '\\'
    · subst hc
      match rest with
      | [] => exact absurd rfl halone
      | d :: rest =>
        by_cases hd : d = '\r' ∧ rest.head? = some '\n'
        · obtain ⟨rfl, hhead⟩ := hd
          obtain ⟨more, rfl⟩ : ∃ more, rest = '\n' :: more := by
            cases rest with
            | nil => cases hhead
            | cons e more => exact ⟨more, by simpa using hhead⟩
          exact ⟨['\\', '\r', '\n'], more, rfl, .ending more⟩
        · exact ⟨['\\', d], rest, rfl, .escape fun hreturn hhead => hd ⟨hreturn, hhead⟩⟩
    · exact ⟨[c], rest, rfl, .plain hc⟩

/-- A text is gone through by units, from the back. -/
theorem units_induction {motive : List Char → Prop} (nil : motive []) (alone : motive ['\\'])
    (cons : ∀ unit rest, Takes unit rest → motive rest → motive (unit ++ rest)) (cs : List Char) :
    motive cs := by
  induction hlength : cs.length using Nat.strongRecOn generalizing cs with
  | ind size ih =>
  by_cases hne : cs = []
  · exact hne ▸ nil
  by_cases halone : cs = ['\\']
  · exact halone ▸ alone
  obtain ⟨unit, rest, rfl, hunit⟩ := exists_takes hne halone
  refine cons unit rest hunit (ih rest.length ?_ rest rfl)
  have hpos := List.length_pos_iff.mpr hunit.ne_nil
  rw [← hlength, List.length_append]
  omega

theorem along_nil : Along P [] after := by
  intro read ahead hsplit hne
  exact absurd (List.append_eq_nil_iff.mp hsplit.symm).2 hne

/-- The reader stands before a unit, and from then on behind it. -/
theorem along_cons (hunit : Takes unit (body ++ after)) :
    Along P (unit ++ body) after ↔ P (unit ++ (body ++ after)) ∧ Along P body after := by
  constructor
  · intro h
    refine ⟨?_, fun read ahead hsplit hne hpasses => ?_⟩
    · rw [← List.append_assoc]
      exact h [] _ rfl (by simp [hunit.ne_nil]) (.nil _)
    · refine h (unit ++ read) ahead (by rw [hsplit, List.append_assoc]) hne (.cons ?_ hpasses)
      rwa [hsplit, List.append_assoc] at hunit
  · rintro ⟨hfront, hbody⟩ read ahead hsplit hne hpasses
    cases hpasses with
    | nil =>
      rw [List.nil_append] at hsplit
      rwa [← hsplit, List.append_assoc]
    | @cons other read _ hother hpasses =>
      have hsame : unit = other := by
        refine hunit.unique hother ?_
        rw [← List.append_assoc, hsplit]
        simp
      subst hsame
      rw [List.append_assoc, List.append_cancel_left_eq] at hsplit
      exact hbody read ahead hsplit hne hpasses

end

/-! ### Searching for the delimiter -/

/-- A search goes by units.  It succeeds where the delimiter stands, fails at a forbidden
character, and goes on behind any other unit. -/
structure Finds (close : List Char → Option Nat) (delimiter forbidden : List Char) : Prop where
  empty : close [] = none
  alone : close ['\\'] = none
  found : ∀ rest, close (delimiter ++ rest) = some delimiter.length
  broken : ∀ c rest, c ∈ forbidden → close (c :: rest) = none
  passed : ∀ unit rest, Takes unit rest → ¬ delimiter <+: unit ++ rest →
    (∀ c ∈ unit.head?, c ∉ forbidden) → close (unit ++ rest) = (close rest).map (· + unit.length)

section

variable {close : List Char → Option Nat} {delimiter forbidden : List Char}

/-- In front of a delimiter nothing can be seen of what is behind it. -/
theorem head?_append_delimiter (hdelimiter : delimiter ≠ []) (body rest : List Char) :
    (body ++ (delimiter ++ rest)).head? = (body ++ delimiter).head? := by
  rw [← List.append_assoc, List.head?_append_of_ne_nil]
  simp [hdelimiter]

theorem Takes.head?_append {unit after : List Char} (h : Takes unit after) :
    (unit ++ after).head? = unit.head? :=
  List.head?_append_of_ne_nil _ h.ne_nil

/-- **What is closed is found.** -/
theorem Finds.complete (h : Finds close delimiter forbidden) (hdelimiter : delimiter ≠ [])
    {body : List Char} (hbody : Closes delimiter forbidden body) (rest : List Char) :
    close (body ++ (delimiter ++ rest)) = some (body.length + delimiter.length) := by
  obtain ⟨hpasses, hfirst, hallowed⟩ := hbody
  induction hpasses with
  | nil => simpa using h.found rest
  | @cons unit read delimiter hunit hpasses ih =>
    rw [along_cons hunit] at hfirst hallowed
    have hmore : Takes unit (read ++ (delimiter ++ rest)) :=
      hunit.of_head (head?_append_delimiter hdelimiter read rest).symm
    -- The delimiter is no longer than what the unit stands before.
    have hlater : ¬ delimiter <+: unit ++ (read ++ (delimiter ++ rest)) := by
      intro hinit
      refine hfirst.1 (List.prefix_of_prefix_length_le hinit ⟨rest, by simp⟩ ?_)
      simp only [List.length_append]
      omega
    rw [List.append_assoc, h.passed unit _ hmore hlater, ih h hdelimiter hfirst.2 hallowed.2]
    · simp only [Option.map_some, List.length_append]
      congr 1
      omega
    · rw [← hunit.head?_append]
      exact hallowed.1

/-- **What is found is closed.** -/
theorem Finds.sound (h : Finds close delimiter forbidden) (hdelimiter : delimiter ≠ [])
    (hfound : close cs = some n) : ∃ body rest,
      cs = body ++ (delimiter ++ rest) ∧ n = body.length + delimiter.length ∧
        Closes delimiter forbidden body := by
  induction cs using units_induction generalizing n with
  | nil => simp [h.empty] at hfound
  | alone => simp [h.alone] at hfound
  | cons unit after hunit ih =>
  by_cases hat : delimiter <+: unit ++ after
  · obtain ⟨rest, hcs⟩ := hat
    rw [← hcs] at hfound ⊢
    obtain rfl : delimiter.length = n := by simpa [h.found] using hfound
    exact ⟨[], rest, rfl, by simp, .nil _, along_nil, along_nil⟩
  have hhead : ∀ c ∈ unit.head?, c ∉ forbidden := by
    intro c hc hforbidden
    obtain ⟨more, rfl⟩ : ∃ more, unit = c :: more := by
      cases unit with
      | nil => cases hc
      | cons d more => exact ⟨more, by simpa using hc⟩
    simp [h.broken c _ hforbidden] at hfound
  rw [h.passed unit after hunit hat hhead] at hfound
  obtain ⟨m, hm, rfl⟩ := Option.map_eq_some_iff.mp hfound
  obtain ⟨body, rest, rfl, rfl, hbody⟩ := ih hm
  have hbefore : Takes unit (body ++ delimiter) :=
    hunit.of_head (head?_append_delimiter hdelimiter body rest)
  refine ⟨unit ++ body, rest, by simp, by simp only [List.length_append]; omega, ?_⟩
  refine ⟨.cons hbefore hbody.passes, (along_cons hbefore).mpr ⟨?_, hbody.first⟩,
    (along_cons hbefore).mpr ⟨?_, hbody.allowed⟩⟩
  · intro hinit
    refine hat (hinit.trans ⟨rest, by simp⟩)
  · rwa [hbefore.head?_append]

/-- A search succeeds exactly if the delimiter closes what is in front of it. -/
theorem Finds.isSome_iff (h : Finds close delimiter forbidden) (hdelimiter : delimiter ≠ []) :
    (close cs).isSome = true ↔
      ∃ body rest, cs = body ++ (delimiter ++ rest) ∧ Closes delimiter forbidden body := by
  constructor
  · intro hsome
    obtain ⟨n, hn⟩ := Option.isSome_iff_exists.mp hsome
    obtain ⟨body, rest, hcs, -, hbody⟩ := h.sound hdelimiter hn
    exact ⟨body, rest, hcs, hbody⟩
  · rintro ⟨body, rest, rfl, hbody⟩
    rw [h.complete hdelimiter hbody rest, Option.isSome_some]

end

section

variable {q : Char} (hq : isQuote q = true)

include hq

theorem closeOne?_finds : Finds (closeOne? q) [q] ['\r', '\n'] where
  empty := rfl
  alone := rfl
  found rest := by
    rw [List.singleton_append, closeOne?_plain (isQuote_ne_backslash hq), if_pos rfl]
    rfl
  broken c rest hc := by
    have hne : c ≠ q := by
      rintro rfl
      rcases (by simpa using hc : c = '\r' ∨ c = '\n') with rfl | rfl <;> cases hq
    have hback : c ≠ '\\' := by
      rintro rfl
      simp at hc
    rw [closeOne?_plain hback, if_neg hne, if_pos (by simpa using hc)]
  passed unit rest hunit hclose hhead := by
    cases hunit with
    | ending => rfl
    | @escape c _ hc =>
      rw [List.cons_append, List.singleton_append, closeOne?]
      · rfl
      · rintro more rfl rfl
        exact hc rfl rfl
    | @plain c _ hc =>
      have hne : c ≠ q := by
        rintro rfl
        exact hclose ⟨rest, rfl⟩
      rw [List.singleton_append, closeOne?_plain hc, if_neg hne, if_neg (by simpa using hhead)]
      rfl

theorem closeThree?_finds : Finds (closeThree? q) [q, q, q] [] where
  empty := rfl
  alone := rfl
  found rest := by
    rw [List.cons_append, closeThree?_plain (isQuote_ne_backslash hq), if_pos ⟨rfl, rfl⟩]
    rfl
  broken c rest hc := by cases hc
  passed unit rest hunit hclose hhead := by
    cases hunit with
    | ending =>
      -- The newline of the pair is read for itself here, and is no quote.
      have hnewline : '\n' ≠ q := (isQuote_ne_newline hq).symm
      simp only [List.cons_append, List.nil_append]
      rw [closeThree?, closeThree?_plain (by decide), if_neg (fun h => hnewline h.1),
        Option.map_map]
      rfl
    | escape hc =>
      rw [List.cons_append, List.singleton_append, closeThree?]
      rfl
    | @plain c _ hc =>
      have hne : ¬ (c = q ∧ rest.take 2 = [q, q]) := by
        rintro ⟨rfl, htake⟩
        exact hclose ⟨rest.drop 2, by rw [← List.take_append_drop 2 rest, htake]; simp⟩
      rw [List.singleton_append, closeThree?_plain hc, if_neg hne]
      rfl

end

/-! ### Letters and delimiters -/

/-- What a literal is whose opening quote is the first character. -/
theorem unmarkedLength?_cases (h : unmarkedLength? cs = some n) :
    ∃ q body, cs = q :: body ∧ isQuote q = true ∧
      ((∃ inner m, body = q :: q :: inner ∧ closeThree? q inner = some m ∧ n = m + 3) ∨
        ∃ m, closeOne? q body = some m ∧ n = m + 1) := by
  unfold unmarkedLength? at h
  split at h
  · rename_i q body
    split at h
    · rename_i hquote
      simp only [Option.orElse_eq_or, Option.or_eq_some_iff] at h
      refine ⟨q, body, rfl, hquote, ?_⟩
      rcases h with hthree | ⟨-, hone⟩
      · split at hthree
        · rename_i htake
          obtain ⟨m, hm, rfl⟩ := Option.map_eq_some_iff.mp hthree
          refine Or.inl ⟨body.drop 2, m, ?_, hm, rfl⟩
          calc body = body.take 2 ++ body.drop 2 := (List.take_append_drop 2 body).symm
            _ = q :: q :: body.drop 2 := by rw [htake]; rfl
        · cases hthree
      · obtain ⟨m, hm, rfl⟩ := Option.map_eq_some_iff.mp hone
        exact Or.inr ⟨m, hm, rfl⟩
    · cases h
  · cases h

/-- The letters before a quote, if there are not too many. -/
theorem letters_eq (hletters : ∀ c ∈ letters, isMarkLetter c = true)
    (hlength : letters.length ≤ 2) (hc : isMarkLetter c = false) (rest : List Char) :
    runLength isMarkLetter ((letters ++ c :: rest).take 2) = letters.length := by
  match letters with
  | [] => simp [runLength, hc]
  | [a] => simp [runLength, hc, hletters a (by simp)]
  | [a, b] => simp [runLength, hletters a (by simp), hletters b (by simp)]
  | _ :: _ :: _ :: _ => simp at hlength

theorem isMarkLetter_of_isQuote (h : isQuote c = true) : isMarkLetter c = false := by
  rcases (by simpa [isQuote] using h : c = '"' ∨ c = '\'') with rfl | rfl
  · decide
  · decide

variable (h : length? cs = some n)

include h

/-- A literal is its letters and a literal that begins with its quote. -/
theorem length?_cases :
    ∃ letters quoted m, cs = letters ++ quoted ∧ (∀ c ∈ letters, isMarkLetter c = true) ∧
      letters.length ≤ 2 ∧ unmarkedLength? quoted = some m ∧ n = m + letters.length := by
  obtain ⟨m, hm, rfl⟩ := Option.map_eq_some_iff.mp h
  have hle : runLength isMarkLetter (cs.take 2) ≤ (cs.take 2).length :=
    (List.takeWhile_prefix _).length_le
  rw [List.length_take] at hle
  have hlength : (cs.take (runLength isMarkLetter (cs.take 2))).length
      = runLength isMarkLetter (cs.take 2) := by
    rw [List.length_take]
    omega
  refine ⟨cs.take (runLength isMarkLetter (cs.take 2)), _, m, (List.take_append_drop _ cs).symm, ?_,
    by omega, hm, by rw [hlength]⟩
  have htake : cs.take (runLength isMarkLetter (cs.take 2))
      = (cs.take 2).take (runLength isMarkLetter (cs.take 2)) := by
    rw [List.take_take, Nat.min_eq_left (by omega)]
  intro c hc
  rw [htake, take_runLength] at hc
  exact List.all_eq_true.mp List.all_takeWhile c hc

omit h

theorem unmarkedLength?_three (hq : isQuote q = true) (h : closeThree? q body = some n) :
    unmarkedLength? (q :: q :: q :: body) = some (n + 3) := by
  simp [unmarkedLength?, hq, h]

theorem length?_letters (hletters : ∀ c ∈ letters, isMarkLetter c = true)
    (hfew : letters.length ≤ 2) (hq : isQuote q = true) (rest : List Char) :
    length? (letters ++ q :: rest) = (unmarkedLength? (q :: rest)).map (· + letters.length) := by
  simp only [length?, letters_eq hletters hfew (isMarkLetter_of_isQuote hq), List.drop_left]

/-! ### Literals -/

/-- The parts of a string literal. -/
structure Literal where
  /-- The letters before the quotes. -/
  letters : List Char
  quote : Char
  /-- Whether it is quoted with three quotes, or with one. -/
  isTriple : Bool
  body : List Char

variable {l : Literal}

namespace Literal

/-- What opens a literal, and closes it again. -/
def delimiter (l : Literal) : List Char :=
  if l.isTriple then [l.quote, l.quote, l.quote] else [l.quote]

/-- What may not stand unprotected in the body: with one quote, the ends of lines. -/
def forbidden (l : Literal) : List Char :=
  if l.isTriple then [] else ['\r', '\n']

/-- The literal as it is written. -/
def chars (l : Literal) : List Char :=
  l.letters ++ (l.delimiter ++ (l.body ++ l.delimiter))

/-- A literal is read as one: it has the letters and the quotes that it may have, and ends
with the first delimiter that nothing protects. -/
structure IsRead (l : Literal) : Prop where
  letter : ∀ c ∈ l.letters, isMarkLetter c = true
  few : l.letters.length ≤ 2
  quote : isQuote l.quote = true
  closes : Closes l.delimiter l.forbidden l.body

/-- A literal can be read at the front of some characters. -/
structure At (l : Literal) (cs : List Char) : Prop where
  isRead : l.IsRead
  front : l.chars <+: cs

theorem At.triple_length? (h : l.At cs) (htriple : l.isTriple = true) :
    length? cs = some l.chars.length := by
  obtain ⟨⟨hletter, hfew, hquote, hcloses⟩, rest, rfl⟩ := h
  simp only [delimiter, forbidden, htriple, if_true] at hcloses
  have hclose := (closeThree?_finds hquote).complete (by simp) hcloses rest
  have hcs : l.chars ++ rest
      = l.letters ++ l.quote :: l.quote :: l.quote ::
        (l.body ++ ([l.quote, l.quote, l.quote] ++ rest)) := by
    simp [chars, delimiter, htriple]
  rw [hcs, length?_letters hletter hfew hquote, unmarkedLength?_three hquote hclose]
  simp [chars, delimiter, htriple]
  omega

end Literal

/-- No literal with three quotes can be read at the front. -/
def NoTriple (cs : List Char) : Prop :=
  ∀ l : Literal, l.isTriple = true → ¬ l.At cs

/-- Behind the letters, three quotes that are closed are a literal with three quotes. -/
theorem NoTriple.closeThree?_eq {inner : List Char}
    (h : NoTriple (letters ++ q :: q :: q :: inner))
    (hletter : ∀ c ∈ letters, isMarkLetter c = true) (hfew : letters.length ≤ 2)
    (hquote : isQuote q = true) : closeThree? q inner = none := by
  cases hclose : closeThree? q inner with
  | none => rfl
  | some n =>
    obtain ⟨body, rest, rfl, -, hbody⟩ := (closeThree?_finds hquote).sound (by simp) hclose
    exact absurd ⟨⟨hletter, hfew, hquote, hbody⟩, rest, by simp [Literal.chars, Literal.delimiter]⟩
      (h ⟨letters, q, true, body⟩ rfl)

/-- If there is none, one quote decides. -/
theorem NoTriple.length?_eq {body : List Char} (h : NoTriple (letters ++ q :: body))
    (hletter : ∀ c ∈ letters, isMarkLetter c = true) (hfew : letters.length ≤ 2)
    (hquote : isQuote q = true) :
    length? (letters ++ q :: body) = (closeOne? q body).map (· + (letters.length + 1)) := by
  have hthree : (if body.take 2 = [q, q] then (closeThree? q (body.drop 2)).map (· + 3) else none)
      = none := by
    split
    · rename_i htake
      have hbody : body = q :: q :: body.drop 2 := by
        conv_lhs => rw [← List.take_append_drop 2 body, htake]
        rfl
      rw [hbody] at h
      rw [h.closeThree?_eq hletter hfew hquote]
      rfl
    · rfl
  rw [length?_letters hletter hfew hquote, unmarkedLength?, if_pos hquote, hthree]
  simp only [Option.orElse_eq_or, Option.none_or, Option.map_map]
  congr 1
  funext n
  simp only [Function.comp_apply]
  omega

theorem Literal.At.single_length? (h : l.At cs)
    (hsingle : l.isTriple = false) (hnone : NoTriple cs) : length? cs = some l.chars.length := by
  obtain ⟨⟨hletter, hfew, hquote, hcloses⟩, rest, rfl⟩ := h
  simp only [delimiter, forbidden, hsingle, Bool.false_eq_true, if_false] at hcloses
  have hclose := (closeOne?_finds hquote).complete (by simp) hcloses rest
  have hcs : l.chars ++ rest = l.letters ++ l.quote :: (l.body ++ ([l.quote] ++ rest)) := by
    simp [chars, delimiter, hsingle]
  rw [hcs] at hnone ⊢
  rw [hnone.length?_eq hletter hfew hquote, hclose]
  simp [chars, delimiter, hsingle]
  omega

/-- **What the scanner takes for a literal is what a reader does**: one with three quotes if
that can be read, and otherwise one with one quote. -/
theorem length?_eq_some_iff : length? cs = some n ↔
    ∃ l : Literal, l.At cs ∧ (l.isTriple = false → NoTriple cs) ∧ n = l.chars.length := by
  constructor
  · intro h
    by_cases hnone : NoTriple cs
    · obtain ⟨letters, quoted, m, rfl, hletter, hfew, hm, rfl⟩ := length?_cases h
      obtain ⟨q, body, rfl, hquote, -⟩ := unmarkedLength?_cases hm
      rw [hnone.length?_eq hletter hfew hquote] at h
      obtain ⟨k, hk, hlength⟩ := Option.map_eq_some_iff.mp h
      obtain ⟨body, rest, rfl, rfl, hbody⟩ := (closeOne?_finds hquote).sound (by simp) hk
      refine ⟨⟨letters, q, false, body⟩, ⟨⟨hletter, hfew, hquote, hbody⟩, rest, ?_⟩,
        fun _ => hnone, ?_⟩
      · simp [Literal.chars, Literal.delimiter]
      · simp only [Literal.chars, Literal.delimiter, List.length_append, Bool.false_eq_true,
          if_false, List.length_singleton] at hlength ⊢
        omega
    · obtain ⟨l, htriple, hat⟩ : ∃ l : Literal, l.isTriple = true ∧ l.At cs := by
        simpa [NoTriple] using hnone
      rw [hat.triple_length? htriple] at h
      exact ⟨l, hat, by simp [htriple], (Option.some.inj h).symm⟩
  · rintro ⟨l, hat, hchoice, rfl⟩
    cases htriple : l.isTriple with
    | true => exact hat.triple_length? htriple
    | false => exact hat.single_length? htriple (hchoice htriple)

/-! ### Literals in a text -/

include h

/-- What is read as a literal stands at the front, and nothing behind it matters for that. -/
theorem exists_literal :
    ∃ l : Literal, l.IsRead ∧ l.chars.length = n ∧ cs.take n = l.chars ∧ n ≤ cs.length := by
  obtain ⟨l, ⟨hread, rest, rfl⟩, -, rfl⟩ := length?_eq_some_iff.mp h
  exact ⟨l, hread, rfl, List.take_left, by simp⟩

omit h in
theorem length?_eq_none_iff : length? cs = none ↔ ∀ l : Literal, ¬ l.At cs := by
  constructor
  · intro hnone l hat
    have hsome : ∃ n, length? cs = some n := by
      by_cases hno : NoTriple cs
      · exact ⟨_, length?_eq_some_iff.mpr ⟨l, hat, fun _ => hno, rfl⟩⟩
      · obtain ⟨other, htriple, hother⟩ : ∃ l : Literal, l.isTriple = true ∧ l.At cs := by
          simpa [NoTriple] using hno
        exact ⟨_, hother.triple_length? htriple⟩
    obtain ⟨n, hn⟩ := hsome
    rw [hnone] at hn
    cases hn
  · intro hno
    cases hread : length? cs with
    | none => rfl
    | some n =>
      obtain ⟨l, hat, -⟩ := length?_eq_some_iff.mp hread
      exact absurd hat (hno l)

theorem length?_le : n ≤ cs.length := by
  obtain ⟨l, -, -, -, hle⟩ := exists_literal h
  exact hle

theorem length?_pos : 0 < n := by
  obtain ⟨l, -, rfl, -, -⟩ := exists_literal h
  have hquote : l.quote ∈ l.chars := by
    cases hl : l.isTriple <;> simp [Literal.chars, Literal.delimiter, hl]
  exact List.length_pos_of_mem hquote

/-- A literal ends with its quote. -/
theorem length?_last : (cs.take n).getLast? ≠ some '\r' := by
  obtain ⟨l, hread, -, htake, -⟩ := exists_literal h
  have hdelimiter : l.delimiter.getLast? = some l.quote := by
    cases hl : l.isTriple <;> simp [Literal.delimiter, hl]
  rw [htake, Literal.chars, ← List.append_assoc, ← List.append_assoc, List.getLast?_append,
    hdelimiter, Option.some_or, ne_eq, Option.some.injEq]
  rintro hreturn
  have hquote := hread.quote
  rw [hreturn] at hquote
  cases hquote

omit h

theorem Literal.At.append (h : l.At cs) (after : List Char) : l.At (cs ++ after) :=
  ⟨h.isRead, h.front.trans (List.prefix_append cs after)⟩

/-- A literal that fits is read without what is behind it. -/
theorem Literal.At.of_append {after : List Char} (h : l.At (cs ++ after))
    (hfits : l.chars.length ≤ cs.length) : l.At cs :=
  ⟨h.isRead, List.prefix_of_prefix_length_le h.front (List.prefix_append cs after) hfits⟩

theorem length?_append (after : List Char) (hfits : ∀ n ∈ length? (cs ++ after), n ≤ cs.length) :
    length? (cs ++ after) = length? cs := by
  cases hread : length? (cs ++ after) with
  | none =>
    rw [length?_eq_none_iff] at hread
    exact (length?_eq_none_iff.mpr fun l hat => hread l (hat.append after)).symm
  | some n =>
    obtain ⟨l, hat, hchoice, rfl⟩ := length?_eq_some_iff.mp hread
    refine (length?_eq_some_iff.mpr ⟨l, hat.of_append (hfits _ hread), ?_, rfl⟩).symm
    exact fun hsingle other htriple hother => hchoice hsingle other htriple (hother.append after)

theorem Literal.exists_opening (l : Literal) : ∃ more, l.chars = l.letters ++ l.quote :: more := by
  cases hl : l.isTriple <;> simp [chars, delimiter, hl]

/-- The letters and the quote at a place are the same for all literals there. -/
theorem Literal.At.opening {other : Literal} (h : l.At cs) (hother : other.At cs) :
    l.letters = other.letters ∧ l.quote = other.quote := by
  have hlength {l : Literal} (h : l.At cs) : ∃ more, cs = l.letters ++ l.quote :: more ∧
      runLength isMarkLetter (cs.take 2) = l.letters.length := by
    obtain ⟨more, hmore⟩ := l.exists_opening
    obtain ⟨rest, rfl⟩ := h.front
    refine ⟨more ++ rest, by simp [hmore], ?_⟩
    rw [hmore, List.append_assoc, List.cons_append]
    exact letters_eq h.isRead.letter h.isRead.few (isMarkLetter_of_isQuote h.isRead.quote) _
  obtain ⟨more, hcs, hletters⟩ := hlength h
  obtain ⟨more', hcs', hletters'⟩ := hlength hother
  obtain ⟨hsame, hrest⟩ := List.append_inj (hcs.symm.trans hcs') (hletters.symm.trans hletters')
  exact ⟨hsame, (List.cons.inj hrest).1⟩

/-- Where a literal with three quotes can be read, one with one quote is empty, and a third quote
follows it. -/
theorem Literal.At.empty {triple : Literal} (h : l.At cs) (hthree : triple.At cs)
    (hsingle : l.isTriple = false) (htriple : triple.isTriple = true) :
    l.body = [] ∧ ∃ more, cs = l.chars ++ l.quote :: more := by
  obtain ⟨rest, hrest⟩ := h.front
  obtain ⟨more, hmore⟩ := hthree.front
  have hopening := h.opening hthree
  have hbody : l.body ++ l.quote :: rest
      = l.quote :: l.quote :: (triple.body ++ (triple.delimiter ++ more)) := by
    simpa [chars, delimiter, hsingle, htriple, ← hopening] using hrest.trans hmore.symm
  cases hinner : l.body with
  | nil =>
    rw [hinner, List.nil_append, List.cons.injEq] at hbody
    exact ⟨rfl, _, by rw [← hrest, hbody.2]⟩
  | cons c inner =>
    rw [hinner, List.cons_append, List.cons.injEq] at hbody
    have hfirst := h.isRead.closes.first [] l.body rfl (by simp [hinner]) (.nil _)
    exact absurd (by simp [delimiter, hsingle, hinner, hbody.1]) hfirst

/-- What a literal begins with. -/
theorem Literal.head (l : Literal) (h : l.IsRead) : ∃ c rest, l.chars = c :: rest ∧
    (isMarkLetter c = true ∨ isQuote c = true) := by
  cases hletters : l.letters with
  | cons c letters =>
    exact ⟨c, letters ++ (l.delimiter ++ (l.body ++ l.delimiter)), by simp [chars, hletters],
      Or.inl (h.letter c (by simp [hletters]))⟩
  | nil =>
    obtain ⟨more, hmore⟩ := l.exists_opening
    exact ⟨l.quote, more, by rw [hmore, hletters, List.nil_append], Or.inr h.quote⟩

theorem length?_of_head (hletter : isMarkLetter c = false) (hquote : isQuote c = false)
    (rest : List Char) : length? (c :: rest) = none := by
  refine length?_eq_none_iff.mpr fun l hat => ?_
  obtain ⟨d, more, hchars, hd⟩ := l.head hat.isRead
  obtain ⟨after, hcs⟩ := hat.front
  rw [hchars] at hcs
  obtain rfl := (List.cons.inj hcs).1
  simp [hletter, hquote] at hd

end Quoted

end Scrutiny
