import Highlighter.Proofs.Registry.Safety
import Highlighter.Proofs.Registry.Strict
import Highlighter.Proofs.Scan.Discipline
import Highlighter.Proofs.Scan.Ledger
import Highlighter.Proofs.Scan.Locality

/-!
# Embedded texts that go on

The texts that a scan gives to a language that is embedded by name are scanned one after the other.
Each scan goes on in the modes in which the scan before it has stopped, and over all of them every
mode that is opened scores once at most.
-/

namespace Highlighter

namespace Scan

variable {env : Env} {nested : Nested} {frames : List Frame} {before after : Trace}
  {result : Highlighted}

theorem Env.bisimilar_self (env : Env) : env.Bisimilar false Eq env where
  alike := ⟨env.lexer.bisimilar_self.alike, rfl, rfl, rfl⟩
  search := env.lexer.bisimilar_self.search
  options := .same rfl

/-- What a run gives does not depend on what has happened before. -/
theorem steady_run (hnested : nested.IsSteady) (env : Env) (frames : List Frame) :
    Steady (run env nested frames) := by
  intro before before'
  have hagree := run_agree env.bisimilar_self hnested (framesAlike_eq_iff.mpr (Eq.refl frames))
    before before'
  generalize ((run env nested frames).run before).1 = outcome at hagree ⊢
  generalize ((run env nested frames).run before').1 = outcome' at hagree ⊢
  cases hagree with
  | ok hresult => rw [hresult.eq]
  | @error failure failure' hfailure =>
    obtain ⟨fault, active⟩ := failure
    obtain ⟨fault', active'⟩ := failure'
    obtain ⟨hfault, hactive⟩ := hfailure
    cases hfault
    cases framesAlike_eq_iff.mp hactive
    rfl
  | excused hlenient => cases hlenient

/-- A fault of a scan, other than illegal text. -/
def IsEngineFault (fault : Fault) : Prop :=
  ∃ language cause rule, fault = .engine language cause rule

variable (hnested : nested.IsSteady)
  (hfails : env.options.safeMode = true → nested.FailsWith IsEngineFault)
  (hignore : env.options.ignoreIllegals = true)
include hnested

include hfails hignore in
/-- A scan that ignores illegal text gives what it comes to, or it has recovered from a fault: then
the result has no score and keeps the modes in which the scan has failed. -/
theorem highlight_cases (h : Returns (highlight env nested frames) before result after) :
    ((run env nested frames).run default).1 = .ok result ∨
      ∃ fault, env.options.safeMode = true ∧ IsEngineFault fault ∧
        ((run env nested frames).run default).1 = .error (fault, result.frames) ∧
        result.relevance = 0 := by
  rw [highlight_eq] at h
  obtain ⟨outcome, between, hrun, hsettle⟩ := returns_bind_iff.mp h
  have hgives := returns_lift_iff.mp hrun
  rw [(steady_run hnested env frames).gives hgives default]
  cases outcome with
  | ok other =>
    obtain ⟨rfl, -⟩ := returns_pure_iff.mp hsettle
    exact .inl rfl
  | error failure =>
    right
    obtain ⟨fault, active⟩ := failure
    simp only [settle, throw_bind] at hsettle
    split at hsettle
    · exact absurd hsettle not_returns_throw
    · next hsafe =>
      have hsafe : env.options.safeMode = true := by simpa using hsafe
      obtain ⟨language, cause, rule, rfl⟩ := run_failsWith (hfails hsafe)
        (fun _ _ _ => ⟨_, _, _, rfl⟩) (fun hnot => by cases hignore.symm.trans hnot) hgives
      obtain ⟨_, _, _, hpure⟩ := returns_bind_iff.mp hsettle
      obtain ⟨rfl, -⟩ := returns_pure_iff.mp hpure
      exact ⟨_, hsafe, ⟨_, _, _, rfl⟩, rfl, rfl⟩

/-- A run that comes to its end is what highlighting gives. -/
theorem highlight_of_ok (h : ((run env nested frames).run default).1 = .ok result)
    (before : Trace) : ∃ after, Returns (highlight env nested frames) before result after := by
  refine ⟨((run env nested frames).run before).2, ?_⟩
  rw [highlight_eq]
  refine returns_bind_iff.mpr ⟨.ok result, _, returns_lift_iff.mpr (Prod.ext ?_ rfl),
    returns_pure_iff.mpr ⟨rfl, rfl⟩⟩
  exact (steady_run hnested env frames before default).trans h

/-- In safe mode highlighting recovers from a fault of the run, without any score. -/
theorem highlight_of_fault (hsafe : env.options.safeMode = true) {fault : Fault}
    (hfault : IsEngineFault fault) {active : List Frame}
    (h : ((run env nested frames).run default).1 = .error (fault, active)) :
    ∃ result : Highlighted, result.relevance = 0 ∧
      ∀ before, ∃ after, Returns (highlight env nested frames) before result after := by
  obtain ⟨language, cause, rule, rfl⟩ := hfault
  let recovered : Highlighted := {
    Highlighted.plain (some env.language) (env.slice 0 env.text.size) env.settings.classPrefix with
    errorRaised := some (Fault.engine language cause rule).message
    frames := active }
  have hsettle : ∀ between, ∃ after, Returns
      (settle env (.error (.engine language cause rule, active))) between recovered after := by
    intro between
    simp only [settle, hsafe, Bool.not_true, Bool.false_eq_true, if_false]
    exact ⟨_, returns_bind_iff.mpr ⟨(), _, returns_lift_iff.mpr rfl,
      returns_pure_iff.mpr ⟨rfl, rfl⟩⟩⟩
  refine ⟨recovered, rfl, fun before => ?_⟩
  have hrun : Gives (run env nested frames) before (.error (.engine language cause rule, active))
      ((run env nested frames).run before).2 :=
    Prod.ext ((steady_run hnested env frames before default).trans h) rfl
  obtain ⟨after, hsettled⟩ := hsettle ((run env nested frames).run before).2
  rw [highlight_eq]
  exact ⟨after, returns_bind_iff.mpr ⟨_, _, returns_lift_iff.mpr hrun, hsettled⟩⟩

include hfails hignore in
/-- The relevance of a result exceeds that of the same scan without scores of modes by what the
modes score that the ledger has settled. -/
theorem highlight_credit {ledger : Ledger} {settled : List Opening}
    (hframes : (State.restore env frames).frames = frames)
    (hmarks : Ledger.marks ledger.active = marks frames)
    (hsettled : (ledger.scan env nested frames).settled = ledger.settled ++ settled)
    (h : Returns (highlight env nested frames) before result after) :
    ∃ bare : Highlighted,
      (∀ started, ∃ ended, Returns (highlight env.unscored nested frames) started bare ended) ∧
        result.relevance = bare.relevance + Ledger.score env.lexer settled := by
  have hcredits := run_credit hnested hframes hmarks default
  have hscore : Ledger.score env.lexer (ledger.scan env nested frames).settled =
      Ledger.score env.lexer ledger.settled + Ledger.score env.lexer settled := by
    rw [hsettled, Ledger.score_append]
  rcases highlight_cases hnested hfails hignore h with hrun |
    ⟨fault, hsafe, hfault, hrun, hrelevance⟩
  · rw [hrun] at hcredits
    obtain ⟨_, bare, amount, hbare, hexceeds, hamount⟩ := hcredits.of_ok
    refine ⟨bare, highlight_of_ok hnested hbare, ?_⟩
    rw [hexceeds, Nat.add_left_cancel (hamount.trans hscore)]
  · rw [hrun] at hcredits
    obtain ⟨_, hbare, hunsettled⟩ := hcredits.of_error
    obtain ⟨bare, hzero, hreturns⟩ := @highlight_of_fault env.unscored _ _ hnested hsafe _ hfault _ hbare
    refine ⟨bare, hreturns, ?_⟩
    rw [hunsettled] at hscore
    rw [hrelevance, hzero]
    omega

omit hnested in
/-- A run that has come to an end has stopped in a state: it has closed the modes of that state, or
it has failed inside them. -/
def StopsIn (env : Env) (nested : Nested) (frames : List Frame) (last : State) : Prop :=
  Reaches env nested frames last ∧
    (((run env nested frames).run default).1 = .ok (conclude env last) ∨
      ∃ fault, ((run env nested frames).run default).1 = .error (fault, last.frames))

/-- What is active in a frame, whether or not it has been credited. -/
def contents (frames : List Frame) : List (Nat × FrameData) :=
  frames.map fun frame => (frame.mode, frame.data)

include hfails hignore in
/-- A scan hands on the modes and the data of the state in which it has stopped. -/
theorem highlight_stopsIn (h : Returns (highlight env nested frames) before result after) :
    ∃ last, StopsIn env nested frames last ∧ contents result.frames = contents last.frames := by
  have hgives : Gives (run env nested frames) default ((run env nested frames).run default).1
      ((run env nested frames).run default).2 := rfl
  obtain ⟨last, hlast, hstops⟩ := Reaches.of_run hgives
  refine ⟨last, ⟨hlast, hstops⟩, ?_⟩
  rcases highlight_cases hnested hfails hignore h with hrun | ⟨fault, _, _, hrun, _⟩
  · rw [hrun] at hstops
    rcases hstops with hok | ⟨fault, herror⟩
    · cases hok
      simp [conclude, contents]
    · cases herror
  · rw [hrun] at hstops
    rcases hstops with hok | ⟨fault, herror⟩
    · cases hok
    · rw [(Prod.mk.inj (Except.error.inj herror)).2]

/-- The frames that a scan hands on are followed by the ledger. -/
theorem highlight_handsOn {ledger : Ledger}
    (hfails : env.options.safeMode = true → nested.FailsWith IsEngineFault)
    (hignore : env.options.ignoreIllegals = true) (hlinked : env.lexer.Linked)
    (hhanded : HandedOn env.lexer frames) (hmarks : Ledger.marks ledger.active = marks frames)
    (h : Returns (highlight env nested frames) before result after) :
    HandedOn env.lexer result.frames ∧
      Ledger.marks (ledger.scan env nested frames).active = marks result.frames := by
  have hframes := frames_restore (hhanded.grounded hlinked)
  have hcredits := run_credit hnested hframes hmarks default
  rcases highlight_cases hnested hfails hignore h with hrun | ⟨fault, _, _, hrun, _⟩
  · rw [hrun] at hcredits
    exact ⟨.ended rfl hhanded (Prod.ext hrun rfl), hcredits.of_ok.1⟩
  · rw [hrun] at hcredits
    exact ⟨.failed rfl hhanded (Prod.ext hrun rfl), hcredits.of_error.1⟩

end Scan

namespace Workshop

variable {workshop : Workshop} {name key : String} {language : Language} {depth : Nat}
  {options : Scan.Options} {before after : Trace} {result : Highlighted}

theorem services_steady (workshop : Workshop) (depth : Nat) (options : Scan.Options) :
    (workshop.services depth options).IsSteady where
  isKnown _ := rfl
  fresh _ := rfl
  highlight name text frames frames' hframes := by
    cases hframes
    have hagree := highlightWithin_agree workshop.alike_self depth false name text
      ⟨true, options.safeMode⟩ ⟨true, options.safeMode⟩ frames frames (.same rfl)
      fun _ _ _ => framesAlike_eq_iff.mpr rfl
    cases hfind : workshop.catalog.find? name with
    | some entry =>
      exact hagree.mono fun result result' hresult => ⟨hresult.bare,
        framesAlike_eq_iff.mp (hresult.frames entry.1 entry.2 hfind), hresult.single,
        hresult.single'⟩
    | none =>
      cases depth with
      | zero => exact .of_throw _
      | succ depth =>
        simp only [services, highlightWithin, hfind]
        exact .of_throw _
  detect text names :=
    (detectWith_agree workshop.alike_self (highlightWithin_agree workshop.alike_self depth false)
      text names).mono fun _ _ hresult => hresult.1

/-- What stays the same while a text of an embedded language is scanned. -/
def segmentEnv (workshop : Workshop) (language : Language) (options : Scan.Options)
    (segment : Scan.Segment) : Scan.Env :=
  workshop.env language segment.text ⟨true, options.safeMode⟩

/-- The services for languages that are embedded in an embedded language. -/
def innerServices (workshop : Workshop) (depth : Nat) (options : Scan.Options) : Scan.Nested :=
  workshop.services depth ⟨true, options.safeMode⟩

/-- The ledger once texts of an embedded language have been scanned. -/
def ledger (workshop : Workshop) (language : Language) (depth : Nat) (options : Scan.Options)
    (segments : List Scan.Segment) : Scan.Ledger :=
  segments.foldl (fun ledger segment => ledger.scan (workshop.segmentEnv language options segment)
    (workshop.innerServices depth options) segment.frames) {}

theorem innerServices_failsWith (workshop : Workshop) (depth : Nat) (options : Scan.Options)
    (segment : Scan.Segment)
    (h : (workshop.segmentEnv language options segment).options.safeMode = true) :
    (workshop.innerServices depth options).FailsWith Scan.IsEngineFault :=
  services_failsWith (fun _ _ _ => ⟨_, _, _, rfl⟩) workshop depth h

/-- An embedded text is scanned with the lexer of its language. -/
theorem highlight_segment (hfind : workshop.catalog.find? name = some (key, language))
    {segment : Scan.Segment}
    (h : Returns ((workshop.services (depth + 1) options).highlight name segment.text
      segment.frames) before result after) :
    ∃ started, Returns (Scan.highlight (workshop.segmentEnv language options segment)
      (workshop.innerServices depth options) segment.frames) started result after := by
  obtain ⟨key', language', started, hfind', hscan⟩ := highlightWithin_succ h
  cases hfind.symm.trans hfind'
  exact ⟨started, hscan⟩

/-- What an embedded language hands on is what its scan does. -/
theorem highlight_of_handsOn (hfind : workshop.catalog.find? name = some (key, language))
    {segment : Scan.Segment} {frames : List Frame}
    (h : (workshop.services (depth + 1) options).handsOn name segment = some frames) :
    ∃ result started ended, result.frames = frames ∧
      Returns (Scan.highlight (workshop.segmentEnv language options segment)
        (workshop.innerServices depth options) segment.frames) started result ended := by
  obtain ⟨result, after, hresult, hframes⟩ := Scan.returns_of_handsOn h
  obtain ⟨started, hscan⟩ := highlight_segment hfind hresult
  exact ⟨result, started, after, hframes, hscan⟩

/-- Where a text goes on, the ledger follows the modes in which it does. -/
theorem segment_followed (hlinked : language.lexer.Linked)
    (hfind : workshop.catalog.find? name = some (key, language)) {segments : List Scan.Segment}
    (hchained : Scan.Chained ((workshop.services (depth + 1) options).handsOn name) [] segments)
    {count : Nat} {segment : Scan.Segment} (hsegment : segments[count]? = some segment) :
    Scan.HandedOn language.lexer segment.frames ∧
      Scan.Ledger.marks (workshop.ledger language depth options (segments.take count)).active =
        marks segment.frames := by
  refine hchained.holds (P := fun frames (ledger : Scan.Ledger) =>
    Scan.HandedOn language.lexer frames ∧ Scan.Ledger.marks ledger.active = marks frames)
    ⟨.nothing, rfl⟩ ?_ hsegment
  rintro segment ledger frames ⟨hhanded, hmarks⟩ hhandsOn
  obtain ⟨result, started, ended, rfl, hscan⟩ := highlight_of_handsOn hfind hhandsOn
  exact Scan.highlight_handsOn (services_steady _ _ _)
    (innerServices_failsWith workshop depth options segment) rfl hlinked hhanded hmarks hscan

/-- However many texts there are, no mode is settled twice. -/
theorem ledger_sound (workshop : Workshop) (language : Language) (depth : Nat)
    (options : Scan.Options) (segments : List Scan.Segment) :
    (workshop.ledger language depth options segments).Sound :=
  List.foldlRecOn segments _ ⟨rfl, List.Subperm.refl _⟩ fun _ hledger _ _ => hledger.scan _ _ _

/-- Where no scan fails, all modes that have been opened are settled. -/
theorem ledger_complete {segments : List Scan.Segment}
    (h : ∀ segment ∈ segments, ∃ result, ((Scan.run (workshop.segmentEnv language options segment)
      (workshop.innerServices depth options) segment.frames).run default).1 = .ok result) :
    (workshop.ledger language depth options segments).settled.Perm
      (workshop.ledger language depth options segments).opened := by
  have hsettled : (workshop.ledger language depth options segments).Complete ∧
      Scan.Ledger.pending (workshop.ledger language depth options segments).active = [] := by
    refine List.foldlRecOn (motive := fun ledger : Scan.Ledger =>
      ledger.Complete ∧ Scan.Ledger.pending ledger.active = []) segments _
      ⟨List.Perm.refl _, rfl⟩ ?_
    intro ledger hledger segment hsegment
    obtain ⟨result, hrun⟩ := h segment hsegment
    exact hledger.1.scan hrun
  obtain ⟨hcomplete, hpending⟩ := hsettled
  rw [Scan.Ledger.Complete, Scan.Ledger.claims, hpending, List.append_nil] at hcomplete
  exact hcomplete

/-- The ledger after one more text. -/
theorem ledger_succ (workshop : Workshop) (language : Language) (depth : Nat)
    (options : Scan.Options) {segments : List Scan.Segment} {count : Nat} {segment : Scan.Segment}
    (hsegment : segments[count]? = some segment) :
    workshop.ledger language depth options (segments.take (count + 1)) =
      (workshop.ledger language depth options (segments.take count)).scan
        (workshop.segmentEnv language options segment) (workshop.innerServices depth options)
        segment.frames := by
  rw [ledger, List.take_add_one, hsegment, Option.toList_some, List.foldl_append]
  rfl

end Workshop

namespace Registry

variable {registry : Registry}

/-- The texts that a scan gives to a language with a name, one after the other, are all that it asks
of it. The first of them starts from nothing, and every further one in the modes and with the data
in which the text before it has stopped, before its scan has closed them; their scopes are open in
order. What a text scores exceeds what it scores where modes have no score by the scores of the modes
that are settled with it. All over, no mode is settled twice, and where no scan fails every mode that
has been opened is settled. -/
theorem Reached.embedded_texts_continue (h : registry.Reached) {name key : String}
    {language : Language}
    (hfind : registry.workshop.catalog.find? name = some (key, language)) (depth : Nat)
    (options : Scan.Options) (env : Scan.Env) (frames : List Frame) (before : Trace) :
    let nested := registry.workshop.services (depth + 1) options
    let inner := registry.workshop.innerServices depth options
    let scan := registry.workshop.segmentEnv language options
    let segments := ((Scan.segments env nested name frames).run before).1
    let ledger := fun count => registry.workshop.ledger language depth options (segments.take count)
    (∀ nested' : Scan.Nested, nested.AgreesOn name segments nested' →
        (Scan.run env nested' frames).run before = (Scan.run env nested frames).run before) ∧
      (∀ segment, segments[0]? = some segment → segment.frames = []) ∧
      (∀ count segment next, segments[count]? = some segment → segments[count + 1]? = some next →
        ∃ last, Scan.StopsIn (scan segment) inner segment.frames last ∧
          Scan.contents next.frames = Scan.contents last.frames ∧
          (Scan.State.restore (scan next) next.frames).frames = next.frames ∧
          (Scan.State.restore (scan next) next.frames).tree.scopes =
            next.frames.filterMap (Scan.scope? (scan next))) ∧
      (∀ count segment, segments[count]? = some segment →
        Scan.Ledger.marks (ledger count).active = marks segment.frames ∧
          ∃ settled, (ledger (count + 1)).settled = (ledger count).settled ++ settled ∧
            ∀ started result ended,
              Returns (nested.highlight name segment.text segment.frames) started result ended →
              ∃ bare : Highlighted,
                (∀ started, ∃ ended, Returns (Scan.highlight (scan segment).unscored inner
                  segment.frames) started bare ended) ∧
                result.relevance =
                  bare.relevance + Scan.Ledger.score language.lexer settled) ∧
      (ledger segments.length).opened.Nodup ∧
      (ledger segments.length).settled.Subperm (ledger segments.length).opened ∧
      ((∀ segment ∈ segments, ∃ result,
          ((Scan.run (scan segment) inner segment.frames).run default).1 = .ok result) →
        (ledger segments.length).settled.Perm (ledger segments.length).opened) := by
  intro nested inner scan segments ledger
  have hlinked := language.grammar.compile_linked
    (h.isReady.compiled _ (Catalog.mem_of_find? hfind))
  have hchained : Scan.Chained (nested.handsOn name) [] segments :=
    Scan.segments_chained (Workshop.services_steady _ _ _) env name frames before
  have hsteady := registry.workshop.services_steady depth ⟨true, options.safeMode⟩
  have hfails := fun segment =>
    @Workshop.innerServices_failsWith language registry.workshop depth options segment
  have hfollowed := fun count segment hsegment =>
    @Workshop.segment_followed _ _ _ _ depth options hlinked hfind _ hchained count segment hsegment
  have hsound := registry.workshop.ledger_sound language depth options segments
  have hall : ledger segments.length = registry.workshop.ledger language depth options segments := by
    simp only [ledger, List.take_length]
  refine ⟨fun _ hagrees => Scan.run_congr hagrees, fun _ hsegment => hchained.first hsegment,
    ?_, ?_, ?_⟩
  · intro count segment next hsegment hnext
    obtain ⟨result, started, ended, hframes, hscan⟩ :=
      Workshop.highlight_of_handsOn hfind (hchained.next hsegment hnext)
    obtain ⟨last, hstops, hcontents⟩ :=
      Scan.highlight_stopsIn hsteady (hfails segment) rfl hscan
    have hrestored : (Scan.State.restore (scan next) next.frames).frames = next.frames :=
      Scan.frames_restore ((hfollowed _ _ hnext).1.grounded hlinked)
    have haligned := Scan.restore_aligned (scan next) next.frames
    rw [Scan.State.Aligned, hrestored] at haligned
    exact ⟨last, hstops, hframes ▸ hcontents, hrestored, haligned⟩
  · intro count segment hsegment
    obtain ⟨hhanded, hmarks⟩ := hfollowed _ _ hsegment
    obtain ⟨settled, hsettled⟩ :=
      Scan.Ledger.settled_scan (scan segment) inner segment.frames (ledger count)
    refine ⟨hmarks, settled, ?_, ?_⟩
    · rw [hsettled]
      exact congrArg (·.settled) (registry.workshop.ledger_succ language depth options hsegment)
    · intro started result ended hresult
      obtain ⟨between, hscan⟩ := Workshop.highlight_segment hfind hresult
      exact Scan.highlight_credit hsteady (hfails segment) rfl
        (Scan.frames_restore (hhanded.grounded hlinked)) hmarks hsettled.symm hscan
  · rw [hall]
    exact ⟨hsound.nodup, (List.sublist_append_left _ _).subperm.trans hsound.once,
      Workshop.ledger_complete⟩

/-- A registry that has learned texts in quotes, and texts between brackets that embed them. -/
def embedding : Registry :=
  let learned := ((Registry.empty.registerGrammar quoted).run {}).1.2
  ((learned.registerGrammar Workshop.bracketed).run {}).1.2

theorem embedding_reached : embedding.Reached := by
  have hlearned : Reached ((Registry.empty.registerGrammar quoted).run {}).1.2 :=
    .registerGrammar .empty rfl
  exact .registerGrammar hlearned rfl

/-- A text of two pairs of brackets, with a quote that is open between them. -/
def splitEnv : Scan.Env :=
  embedding.workshop.env Workshop.bracketedLanguage "<\"a>b<c\">" ⟨false, true⟩

/-- The texts between these brackets. -/
def splitSegments : List Scan.Segment :=
  ((Scan.segments splitEnv (embedding.workshop.services 1 ⟨false, true⟩) "t" []).run {}).1

/-- A quote that is open in the text between one pair of brackets is still open in the text between
the next, and scores once. -/
theorem Reached.embedded_texts_continue_split :
    let ledger := fun count =>
      embedding.workshop.ledger quotedLanguage 0 ⟨false, true⟩ (splitSegments.take count)
    embedding.Reached ∧ embedding.workshop.catalog.find? "t" = some ("t", quotedLanguage) ∧
      splitSegments.map (·.text) = ["\"a", "c\""] ∧
      (∀ segment, splitSegments[0]? = some segment → segment.frames = []) ∧
      (∀ segment, splitSegments[1]? = some segment → marks segment.frames = [(1, true)]) ∧
      (ledger splitSegments.length).opened = [⟨0, 1⟩] ∧
      (ledger splitSegments.length).settled = [⟨0, 1⟩] := by
  intro ledger
  have hfind : embedding.workshop.catalog.find? "t" = some ("t", quotedLanguage) := by cbv
  obtain ⟨htexts, hruns, hmarks, hopened⟩ : splitSegments.map (·.text) = ["\"a", "c\""] ∧
      splitSegments.all (fun segment =>
        ((Scan.run (embedding.workshop.segmentEnv quotedLanguage ⟨false, true⟩ segment)
          (embedding.workshop.innerServices 0 ⟨false, true⟩) segment.frames).run default).1.isOk) =
            true ∧
      Scan.Ledger.marks (ledger 1).active = [(1, true)] ∧
      (ledger splitSegments.length).opened = [⟨0, 1⟩] := by decide +kernel
  obtain ⟨_, hfirst, _, hfollowed, _, _, hperm⟩ :=
    embedding_reached.embedded_texts_continue hfind 0 ⟨false, true⟩ splitEnv [] {}
  have hsettled := hperm fun segment hsegment =>
    exists_ok_of_isOk (List.all_eq_true.mp hruns segment hsegment)
  refine ⟨embedding_reached, hfind, htexts, hfirst, fun segment hsegment => ?_, hopened, ?_⟩
  · exact (hfollowed 1 segment hsegment).1.symm.trans hmarks
  · exact List.perm_singleton.mp (hopened ▸ hsettled)

end Registry

end Highlighter
