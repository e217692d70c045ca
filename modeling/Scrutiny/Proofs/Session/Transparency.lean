/-
Nothing that is remembered changes an answer.

A session keeps trees by digest and verdicts by digest and pass, in two caches that
drop entries on their own.  What is proved here is that no history of calls can be
told from none: each call is answered as a session that was just opened would
answer it.

The invariant is `Faithful`: every tree that is kept is the one its text would be
given again, and every verdict that is kept is the one its pass would work out
again.  It mentions no sizes and no order, so whatever the caches drop, the
invariant stays.  A digest stands for a text only as long as no two texts of the
session share one, and that is the one thing assumed.
-/
import Scrutiny.Proofs.Cache
import Scrutiny.Session

namespace Scrutiny

variable {source : String}

namespace Session

/-! ### Calls and their answers -/

/-- Something a session can be asked to do. -/
inductive Call where
  | verdict (pass : Pass) (source : String)
  | advise (source : String)
  | clear
deriving DecidableEq, Repr

/-- What a call gives back. -/
inductive Answer where
  | verdict (verdict : Verdict)
  | advice (advice : List String)
  | cleared

/-- The text that a call is about. -/
def Call.source? : Call → Option String
  | verdict _ source => some source
  | advise source => some source
  | clear => none

/-- Answer one call. -/
def respond (session : Session) : Call → Answer × Session
  | .verdict pass source =>
    let (verdict, session) := session.verdict pass source
    (.verdict verdict, session)
  | .advise source =>
    let (advice, session) := session.advise source
    (.advice advice, session)
  | .clear => (.cleared, session.clear)

/-- Answer calls one after another, each in the session the one before it left. -/
def answers : Session → List Call → List Answer
  | _, [] => []
  | session, call :: calls =>
    let (answer, session) := session.respond call
    answer :: answers session calls

/-- No two of some texts have the same digest. -/
def DigestsApart (texts : List String) : Prop :=
  ∀ a ∈ texts, ∀ b ∈ texts, Digest.ofText a = Digest.ofText b → a = b

instance (texts : List String) : Decidable (DigestsApart texts) :=
  inferInstanceAs (Decidable (∀ a ∈ texts, ∀ b ∈ texts, _ → a = b))

/-! ### The answers without a memory -/

/-- The verdict of a pass, worked out from the text alone. -/
def verdictOn (config : Config) (checks : Checks) : Pass → String → Verdict
  | .syntactic, source =>
    if isBlankText source.toList then Checks.blankVerdict
    else checks.syntaxVerdict config source (buildTree source)
  | .logical, source => checks.logicVerdict config source (buildTree source)

/-- The answer to a call, worked out from its text alone. -/
def answerOn (config : Config) (checks : Checks) : Call → Answer
  | .verdict pass source => .verdict (verdictOn config checks pass source)
  | .advise source => .advice (checks.advice config source (buildTree source))
  | .clear => .cleared

/-- What a session may remember of some texts: only what it would work out again. -/
structure Faithful (config : Config) (checks : Checks) (texts : List String)
    (session : Session) : Prop where
  sameConfig : session.config = config
  sameChecks : session.checks = checks
  /-- A tree is kept under the digest of the text that it is the tree of. -/
  trees : session.trees.Holds fun digest outcome =>
    ∃ source ∈ texts, digest = Digest.ofText source ∧ outcome = buildTree source
  /-- So is a verdict, beside the pass that reached it. -/
  verdicts : session.verdicts.Holds fun key verdict =>
    ∃ source ∈ texts, key.digest = Digest.ofText source ∧
      verdict = verdictOn config checks key.pass source

variable {config : Config} {checks : Checks} {texts : List String} {session : Session}

theorem faithful_fresh (config : Config) (checks : Checks) (texts : List String) :
    Faithful config checks texts (fresh config checks) :=
  ⟨rfl, rfl, Cache.holds_empty _, Cache.holds_empty _⟩

/-! ### Each operation answers from the text and keeps the invariant -/

variable (hapart : DigestsApart texts)

include hapart

theorem parse_faithful (h : Faithful config checks texts session) (hsource : source ∈ texts) :
    (session.parse source).1 = buildTree source ∧
      Faithful config checks texts (session.parse source).2 := by
  have hfst := Cache.get_fst session.trees (Digest.ofText source)
  have hkept := h.trees.get (Digest.ofText source)
  rcases hget : session.trees.get (Digest.ofText source) with ⟨found, trees⟩
  rw [hget] at hfst hkept
  simp only [parse, TreeCache.parse, hget]
  cases found with
  | some outcome =>
    -- Only a text with the same digest can have left this entry.
    obtain ⟨other, hother, hdigest, rfl⟩ := h.trees.of_find? hfst.symm
    obtain rfl := hapart _ hsource _ hother hdigest
    exact ⟨rfl, h.sameConfig, h.sameChecks, hkept, h.verdicts⟩
  | none =>
    exact ⟨rfl, h.sameConfig, h.sameChecks, hkept.insert ⟨source, hsource, rfl, rfl⟩, h.verdicts⟩

theorem work_faithful
    (h : Faithful config checks texts session) (pass : Pass) (hsource : source ∈ texts) :
    (session.work pass source).1 = verdictOn config checks pass source ∧
      Faithful config checks texts (session.work pass source).2 := by
  obtain ⟨htree, hparsed⟩ := parse_faithful hapart h hsource
  cases pass with
  | syntactic =>
    simp only [work, verdictOn]
    split
    · exact ⟨rfl, h⟩
    · refine ⟨?_, hparsed⟩
      show (session.parse source).2.checks.syntaxVerdict (session.parse source).2.config
        source (session.parse source).1 = _
      rw [htree, hparsed.sameConfig, hparsed.sameChecks]
  | logical =>
    refine ⟨?_, hparsed⟩
    show (session.parse source).2.checks.logicVerdict (session.parse source).2.config
      source (session.parse source).1 = _
    rw [htree, hparsed.sameConfig, hparsed.sameChecks]
    rfl

theorem verdict_faithful
    (h : Faithful config checks texts session) (pass : Pass) (hsource : source ∈ texts) :
    (session.verdict pass source).1 = verdictOn config checks pass source ∧
      Faithful config checks texts (session.verdict pass source).2 := by
  have hfst := Cache.get_fst session.verdicts ⟨Digest.ofText source, pass⟩
  have hkept := h.verdicts.get ⟨Digest.ofText source, pass⟩
  rcases hget : session.verdicts.get ⟨Digest.ofText source, pass⟩ with ⟨found, verdicts⟩
  rw [hget] at hfst hkept
  have hlooked : Faithful config checks texts { session with verdicts } :=
    ⟨h.sameConfig, h.sameChecks, h.trees, hkept⟩
  simp only [verdict, hget]
  cases found with
  | some verdict =>
    obtain ⟨other, hother, hdigest, hverdict⟩ := h.verdicts.of_find? hfst.symm
    obtain rfl := hapart _ hsource _ hother hdigest
    exact ⟨hverdict, hlooked⟩
  | none =>
    obtain ⟨hverdict, hworked⟩ := work_faithful hapart hlooked pass hsource
    exact ⟨hverdict, hworked.sameConfig, hworked.sameChecks, hworked.trees,
      hworked.verdicts.insert ⟨source, hsource, rfl, hverdict⟩⟩

theorem advise_faithful (h : Faithful config checks texts session) (hsource : source ∈ texts) :
    (session.advise source).1 = checks.advice config source (buildTree source) ∧
      Faithful config checks texts (session.advise source).2 := by
  obtain ⟨htree, hparsed⟩ := parse_faithful hapart h hsource
  refine ⟨?_, hparsed⟩
  show (session.parse source).2.checks.advice (session.parse source).2.config source
    (session.parse source).1 = _
  rw [htree, hparsed.sameConfig, hparsed.sameChecks]

/-- One call is answered from its text, and leaves nothing behind that is not. -/
theorem respond_faithful (h : Faithful config checks texts session) (call : Call)
    (hsource : ∀ source, call.source? = some source → source ∈ texts) :
    (session.respond call).1 = answerOn config checks call ∧
      Faithful config checks texts (session.respond call).2 := by
  cases call with
  | verdict pass source =>
    obtain ⟨hverdict, hnext⟩ := verdict_faithful hapart h pass (hsource source rfl)
    exact ⟨congrArg Answer.verdict hverdict, hnext⟩
  | advise source =>
    obtain ⟨hadvice, hnext⟩ := advise_faithful hapart h (hsource source rfl)
    exact ⟨congrArg Answer.advice hadvice, hnext⟩
  | clear =>
    exact ⟨rfl, h.sameConfig, h.sameChecks, Cache.holds_clear _, Cache.holds_clear _⟩

/-! ### Whole sessions -/

theorem answers_faithful :
    ∀ (calls : List Call) {session : Session}, Faithful config checks texts session →
      (∀ call ∈ calls, ∀ source, call.source? = some source → source ∈ texts) →
      session.answers calls = calls.map (answerOn config checks) := by
  intro calls
  induction calls with
  | nil => intro session _ _; rfl
  | cons call calls ih =>
    intro session h hsources
    obtain ⟨hanswer, hnext⟩ := respond_faithful hapart h call (hsources call (by simp))
    have hrest := ih hnext fun later hlater => hsources later (by simp [hlater])
    show (session.respond call).1 :: (session.respond call).2.answers calls = _
    rw [hanswer, hrest]
    rfl

omit hapart

/-- Opening gives a session that remembers nothing. -/
theorem eq_fresh_of_open? {opened : Session} (hopen : Session.open? config checks = .ok opened) :
    fresh config checks = opened := by
  unfold open? at hopen
  split at hopen
  · cases hopen
  · exact Except.ok.inj hopen

/-- A session that was just opened answers from the text as well. -/
theorem respond_fresh (config : Config) (checks : Checks) (call : Call) :
    ((fresh config checks).respond call).1 = answerOn config checks call := by
  have hapart : DigestsApart call.source?.toList := by
    intro a ha b hb _
    simp only [Option.mem_toList] at ha hb
    exact Option.some.inj (ha.symm.trans hb)
  refine (respond_faithful hapart (faithful_fresh config checks _) call ?_).1
  intro source hsource
  simp [hsource]

theorem verdict_fresh (config : Config) (checks : Checks) (pass : Pass) (source : String) :
    ((fresh config checks).verdict pass source).1 = verdictOn config checks pass source :=
  Answer.verdict.inj (respond_fresh config checks (.verdict pass source))

/--
**No history changes an answer.**  A valid configuration opens, whatever the checks,
and the answers to any calls in a row are those that a session just opened gives to
each of them alone, as long as no two of their texts share a digest.
-/
theorem answers_eq_answers_alone (config : Config) (hvalid : config.fault? = none)
    (checks : Checks) (calls : List Call) (hapart : DigestsApart (calls.filterMap Call.source?)) :
    ∃ opened, Session.open? config checks = .ok opened ∧
      opened.answers calls = calls.map fun call => (opened.respond call).1 := by
  refine ⟨fresh config checks, ?_, ?_⟩
  · simp only [open?, hvalid]
  · rw [answers_faithful hapart calls (faithful_fresh config checks _)]
    · refine List.map_congr_left fun call _ => ?_
      exact (respond_fresh config checks call).symm
    · intro call hcall source hsource
      exact List.mem_filterMap.mpr ⟨call, hcall, hsource⟩

/-- With room for one entry, two texts put each other out at every turn. -/
theorem answers_eq_answers_alone_one_entry :
    let config : Config := { Config.default with cacheCapacity := 1 }
    let checks := Checks.standard.addSyntax (.ofFindings "quiet" fun _ => [])
    let calls : List Call :=
      [.verdict .syntactic "x", .verdict .logical "x = (", .verdict .syntactic "x",
        .clear, .advise "x = (", .verdict .logical "x"]
    config.fault? = none ∧ DigestsApart (calls.filterMap Call.source?) ∧
      ∃ opened, Session.open? config checks = .ok opened ∧
        opened.answers calls = calls.map fun call => (opened.respond call).1 := by
  intro config checks calls
  have hvalid : config.fault? = none := by decide
  have hapart : DigestsApart (calls.filterMap Call.source?) := by decide +kernel
  exact ⟨hvalid, hapart, answers_eq_answers_alone config hvalid checks calls hapart⟩

end Session

end Scrutiny
