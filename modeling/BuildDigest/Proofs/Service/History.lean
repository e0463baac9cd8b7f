import BuildDigest.Proofs.Ordered
import BuildDigest.Proofs.Service.Findings

/-!
# What the service has answered is what it keeps

The stored results can be told from the answers of the service alone. Of every
project that was analysed with success they are the data that its last such
analysis answered, under the normalized path of the project, and the projects
stand in the order of their first analyses. Reading and failing leave no trace.
All this holds as long as every snapshot that is found can be shown.

* `Request`, `Service.serve` — the requests of clients, and what they are answered.
* `Exchange.success?`, `latest?`, `latestAll` — what the answers say.
* `Service.Recalls` — the relation between a service and past successes; one request keeps it
  (`Recalls.respond`), and so do any requests (`Recalls.serve`).
* `Service.serve_start` — what a service answers after any requests.
-/

namespace BuildDigest

-- ---------------------------------------------------------------------------
-- Maps with related values
-- ---------------------------------------------------------------------------

namespace Ordered

variable {κ α β : Type} [DecidableEq κ]

/-- Maps with the same keys and related values. -/
def Related (R : α → β → Prop) (m : Ordered κ α) (n : Ordered κ β) : Prop :=
  List.Forall₂ (fun e f => e.1 = f.1 ∧ R e.2 f.2) m.entries n.entries

variable {R : α → β → Prop} {m : Ordered κ α} {n : Ordered κ β}

/-- Related values under one key leave maps related, whether the key is new or not. -/
theorem Related.put (h : Related R m n) (key : κ) {v : α} {w : β} (hValue : R v w) :
    Related R (m.put key v) (n.put key w) := by
  show List.Forall₂ _ (putEntries key v m.entries) (putEntries key w n.entries)
  unfold Related at h
  generalize m.entries = es at h
  generalize n.entries = fs at h
  induction h with
  | nil => exact List.Forall₂.cons ⟨rfl, hValue⟩ List.Forall₂.nil
  | @cons e f es fs hHere hRest ih =>
    rw [putEntries, putEntries, ← hHere.1]
    by_cases hKey : e.1 = key
    · rw [if_pos hKey, if_pos hKey]
      exact List.Forall₂.cons ⟨rfl, hValue⟩ hRest
    · rw [if_neg hKey, if_neg hKey]
      exact List.Forall₂.cons hHere ih

/-- Related maps have related values under a key, or both none. -/
theorem Related.get? (h : Related R m n) (key : κ) :
    (m.get? key = none ∧ n.get? key = none) ∨
      ∃ v w, m.get? key = some v ∧ n.get? key = some w ∧ R v w := by
  unfold Related at h
  rw [Ordered.get?, Ordered.get?]
  generalize m.entries = es at h
  generalize n.entries = fs at h
  induction h with
  | nil => exact Or.inl ⟨rfl, rfl⟩
  | @cons e f es fs hHere hRest ih =>
    rw [List.lookup_cons, List.lookup_cons, ← hHere.1]
    by_cases hKey : key = e.1
    · rw [hKey, beq_self_eq_true]
      exact Or.inr ⟨e.2, f.2, rfl, rfl, hHere.2⟩
    · rw [beq_eq_false_iff_ne.mpr hKey]
      exact ih

end Ordered

-- ---------------------------------------------------------------------------
-- Requests
-- ---------------------------------------------------------------------------

/-- What a client may ask: a call, or the stored results as a text. -/
inductive Request
  | call (opener : Opener) (session : Session) (call : Call)
  | readResults

/-- What a request is answered. -/
inductive Response
  | reply (reply : Service.Reply)
  | text (text : Except Fault String)

/-- A request and what it was answered. -/
abbrev Exchange := Request × Response

/-- The normalized path of the project and the data of an analysis that was answered with success. -/
def Exchange.success? (cwd : String) : Exchange → Option (String × Value)
  | (.call _ _ c, .reply ⟨.ok data, _⟩) =>
    match c.isAnalysis, Path.normalized cwd c.project with
    | true, .ok key => some (key, data)
    | _, _ => none
  | _ => none

namespace Service

def respond (s : Service) : Request → Service × Response
  | .call opener session c => ((s.perform opener session c).1, .reply (s.perform opener session c).2)
  | .readResults => (s, .text s.resultsText)

/-- The service after requests, with all exchanges. -/
def serve (s : Service) : List Request → Service × List Exchange
  | [] => (s, [])
  | r :: rest =>
    let served := (s.respond r).1.serve rest
    (served.1, (r, (s.respond r).2) :: served.2)

/-- Whether all snapshots that a request finds can be shown. -/
def CanShow (s : Service) : Request → Prop
  | .call opener _ c => ∀ key snapshots, s.findings opener c = .ok (some (key, snapshots)) →
      ∀ x ∈ snapshots, ∃ v, x.toValue s.cwd = .ok v
  | .readResults => True

variable {s : Service} {r : Request} {key : String} {snapshots : List Snapshot} {data : Value}

/-- What can be shown does not depend on what is stored. -/
theorem CanShow.keep (h : s.CanShow r) (key : String) (snapshots : List Snapshot) :
    (s.keep key snapshots).CanShow r := by
  cases r with
  | call opener session c =>
    intro key' snapshots' hFound
    rw [findings_keep] at hFound
    exact h key' snapshots' hFound
  | readResults => trivial

/-- Data that lists snapshots of one project. -/
def ListsProject (key : String) (data : Value) : Prop :=
  ∃ vs, data = .list vs ∧
    ∀ v ∈ vs, ∃ fields, v = .object fields ∧ Value.field fields "projectFilePath" = .text key

/-- Snapshots that can be shown one by one can be shown in a list. -/
theorem exists_shown {cwd : String} (hShow : ∀ x ∈ snapshots, ∃ v, x.toValue cwd = .ok v) :
    ∃ vs, Snapshot.listToValues cwd snapshots = .ok vs := by
  induction snapshots with
  | nil => exact ⟨[], rfl⟩
  | cons x rest ih =>
    rw [List.forall_mem_cons] at hShow
    obtain ⟨v, hv⟩ := hShow.1
    obtain ⟨vs, hvs⟩ := ih hShow.2
    exact ⟨v :: vs, by rw [Snapshot.listToValues, hv, hvs]; rfl⟩

/-- Every value of a shown list is a snapshot that was shown. -/
theorem exists_of_mem_listToValues {cwd : String} {vs : List Value}
    (h : Snapshot.listToValues cwd snapshots = .ok vs) :
    ∀ v ∈ vs, ∃ x ∈ snapshots, x.toValue cwd = .ok v := by
  induction snapshots generalizing vs with
  | nil =>
    cases h
    exact nofun
  | cons x rest ih =>
    obtain ⟨v, hv, h⟩ := Except.bind_eq_ok.mp h
    obtain ⟨rest', hRest, h⟩ := Except.bind_eq_ok.mp h
    cases h
    rw [List.forall_mem_cons]
    refine ⟨⟨x, List.mem_cons_self .., hv⟩, fun v' hv' => ?_⟩
    obtain ⟨y, hy, hValue⟩ := ih hRest v' hv'
    exact ⟨y, List.mem_cons_of_mem x hy, hValue⟩

/-- What is shown of snapshots is the list of what is shown of each. -/
theorem shown_eq_ok {cwd : String} :
    shown cwd snapshots = .ok data ↔
      ∃ vs, Snapshot.listToValues cwd snapshots = .ok vs ∧ data = .list vs := by
  unfold shown
  cases Snapshot.listToValues cwd snapshots with
  | error fault => exact ⟨nofun, nofun⟩
  | ok vs =>
    refine ⟨fun h => ⟨vs, rfl, (Except.ok.inj h).symm⟩, fun ⟨vs', hvs, hData⟩ => ?_⟩
    rw [hData, ← Except.ok.inj hvs]
    rfl

/-- What is shown of the snapshots of a project lists this project. -/
theorem listsProject_of_shown {cwd : String} (hPlain : ∀ x ∈ snapshots, x.Plain key)
    (h : shown cwd snapshots = .ok data) : ListsProject key data := by
  obtain ⟨vs, hvs, rfl⟩ := shown_eq_ok.mp h
  refine ⟨vs, rfl, fun v hv => ?_⟩
  obtain ⟨x, hx, hValue⟩ := exists_of_mem_listToValues hvs v hv
  obtain ⟨fields, rfl, hProject⟩ := Snapshot.field_project_of_toValue hValue
  exact ⟨fields, rfl, hProject.trans (hPlain x hx).project⟩

-- ---------------------------------------------------------------------------
-- What is recalled
-- ---------------------------------------------------------------------------

/-- What is stored is shown as it was answered: the data of the last success under every key. -/
def Recalls (s : Service) (successes : List (String × Value)) : Prop :=
  Ordered.Related (fun snapshots data => shown s.cwd snapshots = .ok data) s.store.results
    (.ofList successes)

/-- A new service recalls nothing. -/
theorem recalls_start (cwd : String) (settings : Settings) (depth : Nat) :
    (start cwd settings depth).Recalls [] :=
  List.Forall₂.nil

variable {successes : List (String × Value)}

/-- What is kept of a success is recalled behind the earlier ones. -/
theorem Recalls.keep (h : s.Recalls successes) (hShown : shown s.cwd snapshots = .ok data) :
    (s.keep key snapshots).Recalls (successes ++ [(key, data)]) := by
  unfold Recalls
  rw [Ordered.ofList_append_singleton]
  exact Ordered.Related.put h key hShown

/-- A request is a success that is stored, or changes nothing. -/
theorem respond_cases (s : Service) (hShow : s.CanShow r) :
    (Exchange.success? s.cwd (r, (s.respond r).2) = none ∧ (s.respond r).1 = s) ∨
      ∃ key snapshots data, Exchange.success? s.cwd (r, (s.respond r).2) = some (key, data) ∧
        (s.respond r).1 = s.keep key snapshots ∧ shown s.cwd snapshots = .ok data ∧
        ListsProject key data := by
  cases r with
  | readResults => exact Or.inl ⟨rfl, rfl⟩
  | call opener session c =>
    cases hAnalysis : c.isAnalysis with
    | false =>
      refine Or.inl ⟨?_, s.perform_of_not_analysis opener session hAnalysis⟩
      show Exchange.success? s.cwd (.call opener session c, .reply (s.perform opener session c).2) = _
      cases (s.perform opener session c).2 with
      | mk answer notified =>
        cases answer with
        | error failure => rfl
        | ok data =>
          rw [Exchange.success?, hAnalysis]
    | true =>
      rcases s.perform_analysis opener session hAnalysis with
        ⟨failure, _, hRefused⟩ | ⟨key, snapshots, hFound, hPublished⟩
      · left
        rw [respond, hRefused]
        exact ⟨rfl, rfl⟩
      · right
        obtain ⟨hKey, hPlain⟩ := plain_findings hFound
        obtain ⟨vs, hvs⟩ := exists_shown (hShow key snapshots hFound)
        have hShown : shown s.cwd snapshots = .ok (.list vs) := shown_eq_ok.mpr ⟨vs, hvs, rfl⟩
        refine ⟨key, snapshots, .list vs, ?_, ?_, hShown, listsProject_of_shown hPlain hShown⟩
        · rw [respond, hPublished, publishAt, hShown]
          show (match c.isAnalysis, Path.normalized s.cwd c.project with
            | true, .ok key => some (key, Value.list vs)
            | _, _ => none) = _
          rw [hAnalysis, hKey]
        · rw [respond, hPublished]
          rfl

/-- Any requests keep what is recalled, and only successes are added to it. -/
theorem Recalls.serve {requests : List Request} (h : s.Recalls successes)
    (hShow : ∀ r ∈ requests, s.CanShow r) :
    (s.serve requests).1.Recalls
        (successes ++ (s.serve requests).2.filterMap (Exchange.success? s.cwd)) ∧
      (s.serve requests).1.cwd = s.cwd ∧
      (∀ r, s.CanShow r → (s.serve requests).1.CanShow r) ∧
      ∀ p ∈ (s.serve requests).2.filterMap (Exchange.success? s.cwd), ListsProject p.1 p.2 := by
  induction requests generalizing s successes with
  | nil =>
    refine ⟨?_, rfl, fun _ hr => hr, nofun⟩
    rw [Service.serve, List.filterMap_nil, List.append_nil]
    exact h
  | cons r rest ih =>
    rw [List.forall_mem_cons] at hShow
    rw [Service.serve]
    dsimp only
    rcases s.respond_cases hShow.1 with
      ⟨hNone, hSame⟩ | ⟨key, snapshots, data, hSome, hKept, hShown, hLists⟩
    · rw [List.filterMap_cons_none hNone, hSame]
      exact ih h hShow.2
    · have hRest : ∀ r ∈ rest, (s.keep key snapshots).CanShow r := fun r hr =>
        (hShow.2 r hr).keep key snapshots
      obtain ⟨hRecalls, hCwd, hCanShow, hLists'⟩ := ih (h.keep hShown) hRest
      rw [List.filterMap_cons_some hSome, hKept, List.forall_mem_cons]
      rw [List.append_assoc, List.singleton_append] at hRecalls
      exact ⟨hRecalls, hCwd, fun r hr => hCanShow r (hr.keep key snapshots), hLists, hLists'⟩

/-- Results that are shown one by one are shown together. -/
theorem encode_of_related {cwd : String} {results : List (String × List Snapshot)}
    {fields : List (String × Value)}
    (h : List.Forall₂ (fun e f => e.1 = f.1 ∧ shown cwd e.2 = .ok f.2) results fields) :
    Store.encode cwd results = .ok fields := by
  induction h with
  | nil => rfl
  | @cons e f results fields hHere hRest ih =>
    obtain ⟨vs, hvs, hData⟩ := shown_eq_ok.mp hHere.2
    obtain ⟨key, snapshots⟩ := e
    obtain ⟨key', data⟩ := f
    obtain rfl : key = key' := hHere.1
    obtain rfl : data = .list vs := hData
    have hvs : Snapshot.listToValues cwd snapshots = .ok vs := hvs
    rw [Store.encode, hvs, ih]
    rfl

/-- All results are shown: one entry for each project, with its last data. -/
theorem Recalls.toValue_null (h : s.Recalls successes) :
    s.store.toValue s.cwd .null = .ok (.object (latestAll successes)) := by
  have hEncode := encode_of_related h
  rw [Ordered.entries_ofList] at hEncode
  show (Store.encode s.cwd s.store.results.entries).map _ = _
  rw [hEncode]
  rfl

/-- The results of one project are shown: its last data, if it has any. -/
theorem Recalls.toValue_project (h : s.Recalls successes) {project : Value}
    (hKey : Path.normalized s.cwd project = .ok key) :
    s.store.toValue s.cwd project =
      .ok (.object ((latest? successes key).toList.map fun data => (key, data))) := by
  rw [Store.toValue, Store.get_of_normalized hKey, ← Ordered.get?_ofList]
  rcases Ordered.Related.get? h key with ⟨hNone, hNone'⟩ | ⟨snapshots, data, hSome, hSome', hShown⟩
  · rw [hNone, hNone']
    rfl
  · rw [hSome, hSome']
    have hEncode := encode_of_related (List.Forall₂.cons (a := (key, snapshots)) (b := (key, data))
      ⟨rfl, hShown⟩ List.Forall₂.nil)
    show (Store.encode s.cwd [(key, snapshots)]).map _ = _
    rw [hEncode]
    rfl

/-- What a service answers after successes and nothing else that matters. -/
structure Answers (s : Service) (successes : List (String × Value)) : Prop where
  project : ∀ project key, Path.normalized s.cwd project = .ok key → s.storedResults project =
    .ok (.object ((latest? successes key).toList.map fun data => (key, data)))
  all : s.storedResults .null = .ok (.object (latestAll successes))
  text : s.resultsText = .ok (Json.indented (.object (latestAll successes)))

/-- A service that recalls successes answers them, for all projects and for one, and as a text. -/
theorem Recalls.answers (h : s.Recalls successes) : s.Answers successes where
  project project key hKey := by
    rw [storedResults, h.toValue_project hKey]
    rfl
  all := by
    rw [storedResults, h.toValue_null]
    rfl
  text := by
    rw [resultsText, h.toValue_null]
    rfl

/-- A new service, however deeply it reads logs, answers after any requests whose snapshots can be
shown what the last success of every project was answered, and those data are snapshots of the
project. A request that is no success changes nothing. -/
theorem serve_start (cwd : String) (settings : Settings) (depth : Nat) (requests : List Request)
    (hShow : ∀ r ∈ requests, (start cwd settings depth).CanShow r) :
    ∃ s exchanges, (start cwd settings depth).serve requests = (s, exchanges) ∧ s.cwd = cwd ∧
      s.Answers (exchanges.filterMap (Exchange.success? cwd)) ∧
      (∀ p ∈ exchanges.filterMap (Exchange.success? cwd), ListsProject p.1 p.2) ∧
      ∀ r, (start cwd settings depth).CanShow r → Exchange.success? cwd (r, (s.respond r).2) = none →
        (s.respond r).1 = s := by
  obtain ⟨hRecalls, hCwd, hCanShow, hLists⟩ := (recalls_start cwd settings depth).serve hShow
  refine ⟨_, _, rfl, hCwd, hRecalls.answers, hLists, fun r hr hNone => ?_⟩
  rcases respond_cases _ (hCanShow r hr) with ⟨_, hSame⟩ | ⟨key, snapshots, data, hSome, _⟩
  · exact hSame
  · have hCwd : ((start cwd settings depth).serve requests).1.cwd = cwd := hCwd
    rw [hCwd, hNone] at hSome
    cases hSome

/-- The analysis of a finished build of a project, under one of the names of its path. -/
def appCall (path : String) : Call :=
  .analyzeEvents (.text path) (.list [
    .object [("kind", .text "ProjectStarted"), ("projectFile", .text "App.csproj"),
      ("properties", .object [("TargetFrameworkMoniker", .text "net8.0")])],
    .object [("kind", .text "ProjectFinished"), ("succeeded", .bool true)] ]) .null

/-- Two analyses of one project under different names, with a failed one in between. -/
def appRequests : List Request :=
  [appCall "App.csproj", .analyzeEvents (.text "App.csproj") .null .null, .storedResults .null,
    appCall "Lib\\..\\App.csproj"].map (.call (fun _ => .error .missing) .listening)

/-- The data of both analyses are those of one project, and the failed one in between changes
nothing. -/
theorem serve_start_appRequests :
    (∀ r ∈ appRequests, (start "/work" {}).CanShow r) ∧
      ∃ s exchanges, (start "/work" {}).serve appRequests = (s, exchanges) ∧
        s.Answers (exchanges.filterMap (Exchange.success? "/work")) ∧
        (exchanges.filterMap (Exchange.success? "/work")).map (·.1) =
          ["/work/App.csproj", "/work/App.csproj"] := by
  have hApp : ∀ path ∈ ["App.csproj", "Lib\\..\\App.csproj"], (start "/work" {}).CanShow
      (.call (fun _ => .error .missing) .listening (appCall path)) := by
    intro path hPath key snapshots hFound x hx
    have hShow : ∃ found, (start "/work" {}).findings (fun _ => .error .missing) (appCall path) =
        .ok (some found) ∧ (found.2.all fun x => (x.toValue "/work").toBool) = true := by
      simp only [List.mem_cons, List.not_mem_nil, or_false] at hPath
      rcases hPath with rfl | rfl
      · exact ⟨_, rfl, rfl⟩
      · exact ⟨_, rfl, rfl⟩
    obtain ⟨found, hFound', hAll⟩ := hShow
    rw [hFound'] at hFound
    cases hFound
    have hValue := List.all_eq_true.mp hAll x hx
    cases hx : x.toValue "/work" with
    | error fault =>
      rw [hx] at hValue
      cases hValue
    | ok v => exact ⟨v, hx⟩
  have hShow : ∀ r ∈ appRequests, (start "/work" {}).CanShow r := by
    intro r hr
    obtain ⟨c, hc, rfl⟩ := List.mem_map.mp hr
    simp only [List.mem_cons, List.not_mem_nil, or_false] at hc
    rcases hc with rfl | rfl | rfl | rfl
    · exact hApp _ (by simp)
    · exact nofun
    · exact nofun
    · exact hApp _ (by simp)
  obtain ⟨s, exchanges, hServe, _, hAnswers, _⟩ :=
    serve_start "/work" {} Json.depthLimit appRequests hShow
  refine ⟨hShow, s, exchanges, hServe, hAnswers, ?_⟩
  have hKeys : (((start "/work" {}).serve appRequests).2.filterMap (Exchange.success? "/work")).map
      (·.1) = ["/work/App.csproj", "/work/App.csproj"] := rfl
  rwa [hServe] at hKeys

end Service

end BuildDigest
