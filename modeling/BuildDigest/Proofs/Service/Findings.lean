import BuildDigest.Proofs.Snapshot.Plain
import BuildDigest.Service.Call

/-!
# What an analysis finds and what it leaves

An analysis first finds the snapshots of its project, without looking at the
results that are stored. Then it stores them, tells the session, and only then
shows them. So there are two ways to fail: before the results are stored, and
after it, when a snapshot cannot be shown. The second one has a single cause, a
framework version whose leading digits make no number, and it leaves results
behind that cannot be shown later either. The cause is a single one because a
path is a text of Unicode scalar values here, which can always be written as
octets and so has an identifier.

* `Service.findings` — what a call finds; `Service.publishAt` — what is done with it.
* `Service.perform_analysis` — an analysis is the two of them.
* `Service.plain_findings` — what is found belongs to the project of the call.
* `Service.perform_failed` — the two ways to fail.
-/

namespace BuildDigest

/-- The project that a call names, `null` when it names none. -/
def Call.project : Call → Value
  | .analyzeEvents project _ _ => project
  | .analyzeLog project _ => project
  | .storedResults project => project
  | .describeCommandLine _ => .null

/-- A project with a path is no `null`, so only its own results are asked for. -/
theorem Store.get_of_normalized {st : Store} {cwd key : String} {project : Value}
    (hKey : Path.normalized cwd project = .ok key) :
    st.get cwd project =
      .ok ((st.results.get? key).toList.map fun snapshots => (key, snapshots)) := by
  cases project with
  | text path =>
    rw [Store.get, hKey, Except.map]
    · cases st.results.get? key <;> rfl
    · rintro ⟨⟩
  | null | bool | int | float | list | object => cases hKey

namespace Service

variable {s : Service} {opener : Opener} {session : Session} {c : Call} {failure : Failure}
  {key : String} {snapshots : List Snapshot}

/-- The normalized path of a project and its snapshots in a list of events. -/
def foundIn (s : Service) (project : Value) (tree : Bool) (events : List Event) :
    Except Failure (String × List Snapshot) :=
  match analyze s.cwd s.settings project tree events with
  | .error fault => .error (.value fault)
  | .ok snapshots =>
    match Path.normalized s.cwd project with
    | .error fault => .error (.value fault)
    | .ok key => .ok (key, snapshots)

/-- What an analysis finds before anything is stored; nothing for other calls. -/
def findings (s : Service) (opener : Opener) :
    Call → Except Failure (Option (String × List Snapshot))
  | .analyzeEvents project events tree =>
    match events.elements with
    | .error fault => .error (.value fault)
    | .ok vs =>
      match Event.decodeAll vs with
      | .error fault => .error (.event fault)
      | .ok events => (s.foundIn project (s.wantsTree tree) events).map some
  | .analyzeLog project path =>
    match EventLog.read opener path s.depth with
    | (_, some fault) => .error (.log fault)
    | (events, none) => (s.foundIn project s.settings.buildTree.holds events).map some
  | .storedResults _ => .ok none
  | .describeCommandLine _ => .ok none

/-- The service with the results of a project under its normalized path. -/
def keep (s : Service) (key : String) (snapshots : List Snapshot) : Service :=
  { s with store := ⟨s.store.results.put key snapshots⟩ }

/-- Snapshots as they are answered. -/
def shown (cwd : String) (snapshots : List Snapshot) : Except Failure Value :=
  ((Snapshot.listToValues cwd snapshots).map .list).mapError .value

/-- Stores results under a normalized path and answers them. -/
def publishAt (s : Service) (session : Session) (key : String) (snapshots : List Snapshot) :
    Service × Reply :=
  (s.keep key snapshots, ⟨shown s.cwd snapshots, notify session⟩)

/-- What is found does not depend on what is stored. -/
theorem findings_keep (s : Service) (opener : Opener) (c : Call) (key : String)
    (snapshots : List Snapshot) :
    (s.keep key snapshots).findings opener c = s.findings opener c := by
  cases c <;> rfl

-- ---------------------------------------------------------------------------
-- What an analysis does
-- ---------------------------------------------------------------------------

/-- Analysing decoded events is finding snapshots and publishing them, or being refused. -/
theorem analyzeDecoded_eq (s : Service) (session : Session) (project : Value) (tree : Bool)
    (events : List Event) :
    s.analyzeDecoded session project tree events =
      match s.foundIn project tree events with
      | .error failure => s.refuse failure
      | .ok (key, snapshots) => s.publishAt session key snapshots := by
  unfold analyzeDecoded foundIn
  cases analyze s.cwd s.settings project tree events with
  | error fault => rfl
  | ok snapshots =>
    dsimp only
    unfold publish Store.set
    cases Path.normalized s.cwd project with
    | error fault => rfl
    | ok key => rfl

/-- An analysis finds snapshots and publishes them, or it is refused. -/
theorem perform_analysis (s : Service) (opener : Opener) (session : Session)
    (hAnalysis : c.isAnalysis = true) :
    (∃ failure, s.findings opener c = .error failure ∧
        s.perform opener session c = s.refuse failure) ∨
      ∃ key snapshots, s.findings opener c = .ok (some (key, snapshots)) ∧
        s.perform opener session c = s.publishAt session key snapshots := by
  have hFound : ∀ project tree events,
      (∃ failure, (s.foundIn project tree events).map some = .error failure ∧
          s.analyzeDecoded session project tree events = s.refuse failure) ∨
        ∃ key snapshots, (s.foundIn project tree events).map some = .ok (some (key, snapshots)) ∧
          s.analyzeDecoded session project tree events = s.publishAt session key snapshots := by
    intro project tree events
    rw [analyzeDecoded_eq]
    cases s.foundIn project tree events with
    | error failure => exact Or.inl ⟨failure, rfl, rfl⟩
    | ok found => exact Or.inr ⟨found.1, found.2, rfl, rfl⟩
  cases c with
  | analyzeEvents project events tree =>
    rw [findings, perform, analyzeEvents]
    cases events.elements with
    | error fault => exact Or.inl ⟨_, rfl, rfl⟩
    | ok vs =>
      dsimp only
      cases Event.decodeAll vs with
      | error fault => exact Or.inl ⟨_, rfl, rfl⟩
      | ok events => exact hFound project _ events
  | analyzeLog project path =>
    rw [findings, perform, analyzeLog]
    obtain ⟨events, fault⟩ := EventLog.read opener path s.depth
    cases fault with
    | some fault => exact Or.inl ⟨_, rfl, rfl⟩
    | none => exact hFound project _ events
  | storedResults project => cases hAnalysis
  | describeCommandLine line => cases hAnalysis

/-- Calls that are no analysis change nothing. -/
theorem perform_of_not_analysis (s : Service) (opener : Opener) (session : Session)
    (hOther : c.isAnalysis = false) : (s.perform opener session c).1 = s := by
  cases c with
  | analyzeEvents project events tree => cases hOther
  | analyzeLog project path => cases hOther
  | storedResults project => rfl
  | describeCommandLine line => rfl

-- ---------------------------------------------------------------------------
-- What is found
-- ---------------------------------------------------------------------------

/-- The snapshots in a list of events belong to the project that is asked for. -/
theorem plain_analyze {cwd : String} {settings : Settings} {project : Value} {tree : Bool}
    {events : List Event} (hKey : Path.normalized cwd project = .ok key)
    (h : analyze cwd settings project tree events = .ok snapshots) :
    ∀ x ∈ snapshots, x.Plain key := by
  have hStart : Processor.start cwd project settings tree [] =
      .ok (Processor.idle cwd key settings tree []) := by
    rw [Processor.start, hKey]
    rfl
  have hIdle := Processor.valuesText_idle cwd key settings tree []
  obtain ⟨hValues, hGathering⟩ := Processor.valuesText_processAll hIdle events
  rw [analyze, hStart] at h
  dsimp only at h
  split at h
  · cases h
  · next hAll =>
    rw [hAll] at hValues hGathering
    have hPlain := Processor.plain_results hValues h
    rwa [hGathering] at hPlain

/-- What is found belongs to the project, under its normalized path. -/
theorem plain_foundIn {project : Value} {tree : Bool} {events : List Event}
    (h : (s.foundIn project tree events).map some = .ok (some (key, snapshots))) :
    Path.normalized s.cwd project = .ok key ∧ ∀ x ∈ snapshots, x.Plain key := by
  obtain ⟨found, hFound, hSome⟩ := Except.map_eq_ok.mp h
  obtain rfl := Option.some.inj hSome
  unfold foundIn at hFound
  split at hFound
  · cases hFound
  · next hAnalyze =>
    split at hFound
    · cases hFound
    · next hKey =>
      cases hFound
      exact ⟨hKey, plain_analyze hKey hAnalyze⟩

/-- What an analysis finds belongs to the project that it names. -/
theorem plain_findings (h : s.findings opener c = .ok (some (key, snapshots))) :
    Path.normalized s.cwd c.project = .ok key ∧ ∀ x ∈ snapshots, x.Plain key := by
  cases c with
  | analyzeEvents project events tree =>
    rw [findings] at h
    split at h
    · cases h
    · split at h
      · cases h
      · exact plain_foundIn h
  | analyzeLog project path =>
    rw [findings] at h
    split at h
    · cases h
    · exact plain_foundIn h
  | storedResults project => cases h
  | describeCommandLine line => cases h

-- ---------------------------------------------------------------------------
-- What cannot be shown
-- ---------------------------------------------------------------------------

/-- A list of snapshots fails to be shown for one of them. -/
theorem exists_of_listToValues_error {cwd : String} {f : Fault}
    (h : Snapshot.listToValues cwd snapshots = .error f) :
    ∃ x ∈ snapshots, x.toValue cwd = .error f := by
  induction snapshots with
  | nil => cases h
  | cons x rest ih =>
    rcases Except.bind_eq_error.mp h with hHere | ⟨_, _, h⟩
    · exact ⟨x, List.mem_cons_self .., hHere⟩
    · rcases Except.bind_eq_error.mp h with hRest | ⟨_, _, h⟩
      · obtain ⟨y, hy, hFail⟩ := ih hRest
        exact ⟨y, List.mem_cons_of_mem x hy, hFail⟩
      · cases h

/-- Stored results are shown only if all their snapshots are. -/
theorem exists_listToValues_of_encode {cwd : String} {results : List (String × List Snapshot)}
    {fields : List (String × Value)} (h : Store.encode cwd results = .ok fields) :
    ∀ e ∈ results, ∃ vs, Snapshot.listToValues cwd e.2 = .ok vs := by
  induction results generalizing fields with
  | nil => exact nofun
  | cons e rest ih =>
    obtain ⟨vs, hHere, h⟩ := Except.bind_eq_ok.mp h
    obtain ⟨fields', hRest, _⟩ := Except.bind_eq_ok.mp h
    rw [List.forall_mem_cons]
    exact ⟨⟨vs, hHere⟩, ih hRest⟩

/-- A service that cannot show the results of a project, and so not all results either, because
a version in them is no number. -/
structure Jammed (s : Service) (project : Value) (w : Whole.Fault) : Prop where
  project : s.storedResults project = .error (.value (.whole w))
  all : ∀ data, s.storedResults .null ≠ .ok data
  resource : ∀ text, s.resultsText ≠ .ok text

/-- What is stored cannot be shown if it could not be shown when it was stored. -/
theorem jammed_keep {project : Value} {w : Whole.Fault}
    (hKey : Path.normalized s.cwd project = .ok key)
    (hFail : Snapshot.listToValues s.cwd snapshots = .error (.whole w)) :
    (s.keep key snapshots).Jammed project w := by
  have hGet : (s.store.results.put key snapshots).get? key = some snapshots := by
    rw [Ordered.get?_put, if_pos rfl]
  have hAll : ∀ data, (s.keep key snapshots).store.toValue s.cwd .null ≠ .ok data := by
    intro data hData
    obtain ⟨fields, hEncode, -⟩ := Except.map_eq_ok.mp hData
    obtain ⟨vs, hShown⟩ := exists_listToValues_of_encode hEncode _ (Ordered.mem_of_get? hGet)
    rw [hFail] at hShown
    cases hShown
  refine ⟨?_, fun data hData => ?_, fun text hText => ?_⟩
  · have hStored : (s.keep key snapshots).store.get s.cwd project = .ok [(key, snapshots)] := by
      rw [Store.get_of_normalized hKey, Service.keep, hGet]
      rfl
    have hValue : (s.keep key snapshots).store.toValue s.cwd project = .error (.whole w) := by
      rw [Store.toValue, hStored]
      show (Store.encode s.cwd [(key, snapshots)]).map _ = _
      rw [Store.encode, hFail]
      rfl
    show ((s.keep key snapshots).store.toValue s.cwd project).mapError _ = _
    rw [hValue]
    rfl
  · have hData : ((s.keep key snapshots).store.toValue s.cwd .null).mapError Failure.value =
        .ok data := hData
    cases hValue : (s.keep key snapshots).store.toValue s.cwd .null with
    | error fault =>
      rw [hValue] at hData
      cases hData
    | ok value => exact hAll value hValue
  · obtain ⟨value, hValue, -⟩ := Except.map_eq_ok.mp hText
    exact hAll value hValue

/-- An analysis that fails leaves the service as it was, unless it fails because a snapshot that it
found declares a framework version that is no number. That snapshot is stored all the same, and no
results can be shown afterwards. There is no other exception where all texts are made of Unicode
scalar values and the file of a log, once opened, is read to its end. -/
theorem perform_failed (s : Service) (opener : Opener) (session : Session)
    (hAnalysis : c.isAnalysis = true)
    (hFailed : (s.perform opener session c).2.answer = .error failure) :
    s.perform opener session c = s.refuse failure ∨
      ∃ key snapshots w,
        s.perform opener session c = (s.keep key snapshots, ⟨.error failure, notify session⟩) ∧
        failure = .value (.whole w) ∧ (∃ x ∈ snapshots, x.targetFramework = .error (.whole w)) ∧
        (s.keep key snapshots).Jammed c.project w := by
  rcases s.perform_analysis opener session hAnalysis with
    ⟨failure', _, hRefused⟩ | ⟨key, snapshots, hFound, hPublished⟩
  · left
    rw [hRefused] at hFailed ⊢
    cases hFailed
    rfl
  · right
    obtain ⟨hKey, hPlain⟩ := plain_findings hFound
    rw [hPublished] at hFailed ⊢
    have hFailed : shown s.cwd snapshots = .error failure := hFailed
    cases hShown : Snapshot.listToValues s.cwd snapshots with
    | ok vs =>
      rw [shown, hShown] at hFailed
      cases hFailed
    | error fault =>
      have hFailure : failure = .value fault := by
        rw [shown, hShown] at hFailed
        exact (Except.error.inj hFailed).symm
      obtain ⟨x, hx, hValue⟩ := exists_of_listToValues_error hShown
      obtain ⟨hFramework, w, rfl⟩ := (hPlain x hx).toValue_error hValue
      refine ⟨key, snapshots, w, ?_, hFailure, ⟨x, hx, hFramework⟩, jammed_keep hKey hShown⟩
      rw [publishAt, hFailed]

/-- A finished build of the core framework in a version that is a raised two. -/
def raisedVersion : Value :=
  .list [
    .object [("kind", .text "ProjectStarted"), ("projectFile", .text "/repo/App/App.csproj"),
      ("properties", .object [
        ("TargetFrameworkMoniker", .text ".NETCoreApp,Version=v6.0"),
        ("TargetFrameworkIdentifier", .text ".NETCoreApp"), ("TargetFrameworkVersion", .text "v²")])],
    .object [("kind", .text "ProjectFinished"), ("succeeded", .bool true)] ]

/-- The analysis of such a build. -/
def raisedVersionCall : Call :=
  .analyzeEvents (.text "/repo/App/App.csproj") raisedVersion .null

/-- The call fails, tells the session all the same, and nothing can be shown afterwards. -/
theorem perform_failed_raisedVersion :
    ∃ s reply, (start "/work" {}).perform (fun _ => .error .missing) .listening raisedVersionCall =
        (s, reply) ∧
      reply.answer = .error (.value (.whole (.malformed "²"))) ∧ reply.notified = [resultsUri] ∧
      s.Jammed (.text "/repo/App/App.csproj") (.malformed "²") := by
  have hFailed : ((start "/work" {}).perform (fun _ => .error .missing) .listening
      raisedVersionCall).2.answer = .error (.value (.whole (.malformed "²"))) := rfl
  have hNotified : ((start "/work" {}).perform (fun _ => .error .missing) .listening
      raisedVersionCall).2.notified = [resultsUri] := rfl
  rcases (start "/work" {}).perform_failed (fun _ => .error .missing) .listening rfl hFailed with
    hRefused | ⟨key, snapshots, w, hPerform, hFailure, _, hJammed⟩
  · -- a call that is refused tells the session nothing
    rw [hRefused] at hNotified
    cases hNotified
  · cases hFailure
    rw [hPerform] at hNotified
    exact ⟨_, _, hPerform, rfl, hNotified, hJammed⟩

end Service

end BuildDigest
