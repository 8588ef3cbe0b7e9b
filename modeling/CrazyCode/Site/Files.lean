import CrazyCode.Api.Effects
import CrazyCode.Site.Server

/-!
# Files in a run of the server

The API writes files that are named by numbers, and the authentication handlers write their
databases. So what becomes of a file with another name (a page, a log, a database) can be read off
the requests: it is what the sign-ups of the run, in their order, make of it (`fileAt_of_run`). If
none of them goes to a database there, the file stays as it is. The server may be restarted in
between (`Lived`).

Targets have no zero byte, as in each request that is parsed.
-/

namespace CrazyCode.Site

open Text Decimal Posix Profile Session
open Server hiding Location

/-- The bytes of the file at a location. -/
def fileAt (fs : FileSystem) (loc : Location) : Option Str :=
  match fs.node loc with
  | some (.file content) => some content
  | _ => none

/-- The paths of the configuration lead somewhere: the roots of the API locations, and the databases
of the authentication handlers, which need not be there. -/
structure Ready (routes : Routes) (fs : FileSystem) : Prop where
  api : ∀ location config, routes location = some ⟨.api, config⟩ →
    ∃ top, fs.resolve (getRoot config location) = some top
  database : ∀ e handler, authentication routes e = some handler →
    ∃ loc, fs.resolve handler.database = some loc

/-- A location that the API does not change: its name is not that of an item, it is no directory,
and if nothing is there, it is not one where the API makes a directory. -/
structure Guarded (routes : Routes) (fs : FileSystem) (loc : Location) : Prop where
  named : Api.Named loc
  not_directory : fs.node loc ≠ some .directory
  apart : fs.node loc = none → ∀ location config, routes location = some ⟨.api, config⟩ →
    fs.resolve (getRoot config location) ≠ some loc.dropLast

/-- The request is of this kind, for an authentication handler with its database at the location. -/
def Asks (routes : Routes) (fs : FileSystem) (loc : Location) (kind : RequestKind) (e : Incoming) :
    Prop :=
  ∃ handler ∈ authentication routes e, handler.requestKind e.request.target = kind ∧
    fs.resolve handler.database = some loc

instance (routes : Routes) (fs : FileSystem) (loc : Location) (kind : RequestKind) (e : Incoming) :
    Decidable (Asks routes fs loc kind e) :=
  inferInstanceAs (Decidable (∃ handler ∈ authentication routes e, _))

/-- The bodies of the sign-ups to a database, in the order of the run. -/
def signups (routes : Routes) (fs : FileSystem) (loc : Location) (tr : List (Incoming × Output)) :
    List Str :=
  (tr.filter fun io => Asks routes fs loc .signupSubmit io.1).map fun io => io.1.request.body

/-- One request more. -/
theorem signups_concat (routes : Routes) (fs : FileSystem) (loc : Location)
    (tr : List (Incoming × Output)) (e : Incoming) (o : Output) :
    signups routes fs loc (tr ++ [(e, o)]) =
      signups routes fs loc tr ++ if Asks routes fs loc .signupSubmit e then [e.request.body]
        else [] := by
  by_cases he : Asks routes fs loc .signupSubmit e <;> simp [signups, he]

section

variable {paramList : Str → List (Str × Str)} {hash : PasswordHash} {routes : Routes}
variable {s s' : State} {e : Incoming} {o : Output} {loc : Location}

/-! ## The database of a handler -/

/-- What a handler reads of a database is the file at its place. -/
theorem readDatabase_eq {fs : FileSystem} {path : Str} (h : fs.resolve path = some loc)
    (hdir : fs.node loc ≠ some .directory) : readDatabase fs path = fileAt fs loc := by
  have hlookup := FileSystem.lookup_eq h
  unfold readDatabase fileAt FileSystem.pathExists FileSystem.readFile
  rw [hlookup]
  cases hnode : fs.node loc with
  | none => rfl
  | some n =>
    cases n with
    | directory => exact absurd hnode hdir
    | file content => rfl

/-- What a handler writes is the file at the place of its database. -/
theorem writeDatabase_node_self {fs : FileSystem} {path : Str} (h : fs.resolve path = some loc)
    (hdir : fs.node loc ≠ some .directory) (content : Str) :
    (writeDatabase fs path (some content)).node loc = some (.file content) := by
  rw [writeDatabase, FileSystem.writeFile_eq h,
    FileSystem.set_node_self (FileSystem.writable_of_resolve h hdir)]

/-- Nothing else is written. -/
theorem writeDatabase_node {fs : FileSystem} {path : Str} {loc' : Location}
    (h : fs.resolve path = some loc') (hne : loc ≠ loc') (database : Option Str) :
    (writeDatabase fs path database).node loc = fs.node loc := by
  cases database with
  | none => rfl
  | some content =>
    rw [writeDatabase, FileSystem.writeFile_eq h]
    exact FileSystem.set_node_of_ne hne

/-- What every change at one location keeps is kept by every step. -/
theorem Step.keeps {P : FileSystem → Prop} (hset : ∀ fs loc n, P fs → P (fs.set loc n))
    (hstep : Step paramList hash routes s e o s') (h : P s.fs) : P s'.fs := by
  obtain ⟨-, profile, -,
      ⟨config, res, api, happ⟩ | ⟨handler, fs, -, hrespond, rfl⟩ | ⟨-, -, rfl⟩⟩ :=
    handleRead_cases hstep.read
  · obtain ⟨top, pathCounts, -, -, heq⟩ := Api.exists_root_of_serve happ.serve
    have hkeeps := @Api.handleRequest_keeps P hset ⟨s.fs, pathCounts⟩ (getRoot config
      (matchRoute routes e.request.target)) h profile e.request
    rw [heq] at hkeeps
    rw [happ.state]
    exact hkeeps
  · rcases respond_cases hrespond with ⟨-, rfl⟩ | ⟨-, accepted, database, -, rfl, -⟩
    · exact h
    · dsimp only
      split
      · cases database with
        | none => exact h
        | some content => exact FileSystem.writeFile_keeps hset h _ _
      · exact h
  · exact h

/-- Behind a step a path names the same location. -/
theorem Step.resolve (hstep : Step paramList hash routes s e o s') {path : Str}
    (h : s.fs.resolve path = some loc) : s'.fs.resolve path = some loc :=
  hstep.keeps (P := fun fs => fs.resolve path = some loc)
    (fun _ _ _ h => FileSystem.resolve_set h _ _) h

/-- Behind a step a path that named a location names the same one and no other. -/
theorem Step.resolve_iff (hstep : Step paramList hash routes s e o s') {path : Str}
    (h : ∃ loc, s.fs.resolve path = some loc) :
    s'.fs.resolve path = some loc ↔ s.fs.resolve path = some loc := by
  obtain ⟨loc', hloc'⟩ := h
  rw [hloc', hstep.resolve hloc']

/-- Behind a step the paths of the configuration lead to the same places. -/
theorem Ready.step (h : Ready routes s.fs) (hstep : Step paramList hash routes s e o s') :
    Ready routes s'.fs where
  api location config hroute := (h.api location config hroute).imp fun _ => hstep.resolve
  database e handler he := (h.database e handler he).imp fun _ => hstep.resolve

/-- Behind a step the same requests are for a database. -/
theorem Ready.asks_iff (h : Ready routes s.fs) (hstep : Step paramList hash routes s e o s')
    (kind : RequestKind) (e' : Incoming) :
    Asks routes s'.fs loc kind e' ↔ Asks routes s.fs loc kind e' :=
  exists_congr fun handler => and_congr_right fun he => and_congr_right fun _ =>
    hstep.resolve_iff (h.database e' handler he)

/-! ## One step -/

/-- What a step makes of the file at a guarded location: a sign-up to a database there does what
`signup_string` does, and every other request leaves it as it is. -/
theorem Step.fileAt_eq (hstep : Step paramList hash routes s e o s') (hready : Ready routes s.fs)
    (hguarded : Guarded routes s.fs loc) (hnul : nul ∉ e.request.target) :
    s'.fs.node loc ≠ some .directory ∧ (s'.fs.node loc = none → s.fs.node loc = none) ∧
      fileAt s'.fs loc = if Asks routes s.fs loc .signupSubmit e
        then (signupString hash (fileAt s.fs loc) e.request.body).2 else fileAt s.fs loc := by
  -- All but one of the cases leave the location alone, and are no sign-ups to it.
  have hsame : s'.fs.node loc = s.fs.node loc → ¬ Asks routes s.fs loc .signupSubmit e →
      s'.fs.node loc ≠ some .directory ∧ (s'.fs.node loc = none → s.fs.node loc = none) ∧
      fileAt s'.fs loc = if Asks routes s.fs loc .signupSubmit e
        then (signupString hash (fileAt s.fs loc) e.request.body).2 else fileAt s.fs loc :=
    fun hnode hnot => by
      rw [if_neg hnot, fileAt, fileAt, hnode]
      exact ⟨hguarded.not_directory, id, rfl⟩
  obtain ⟨-, profile, -, ⟨config, res, api, happ⟩ | ⟨handler, fs, he, hrespond, rfl⟩ |
    ⟨he, -, rfl⟩⟩ := handleRead_cases hstep.read
  · -- The API, which writes files of items and makes directories in its root.
    refine hsame ?_ ?_
    · rw [happ.state]
      exact Api.serve_keeps_named happ.serve hnul hguarded.named hguarded.not_directory
        fun hnone => hguarded.apart hnone _ _ happ.route
    · rintro ⟨handler, he, -⟩
      rw [authentication_of_api happ.route] at he
      cases he
  · -- An authentication handler, which writes the database at `loc'`.
    obtain ⟨loc', hloc'⟩ := hready.database e handler he
    have hsigns : Asks routes s.fs loc .signupSubmit e ↔
        handler.requestKind e.request.target = .signupSubmit ∧ loc' = loc := by
      simp [Asks, he, hloc']
    rcases respond_cases hrespond with ⟨hkind, rfl⟩ | ⟨hkind, accepted, database, hsignup, rfl, -⟩
    · exact hsame rfl fun h => hkind (hsigns.mp h).1
    · by_cases hloc : loc' = loc
      · -- A sign-up to this database, which is refused or appends its record.
        subst hloc
        rw [readDatabase_eq hloc' hguarded.not_directory] at hsignup
        rw [if_pos (hsigns.mpr ⟨hkind, rfl⟩), hsignup]
        rcases signupString_cases hash (fileAt s.fs loc') e.request.body with hcase |
          ⟨_, _, _, _, -, -, -, hcase⟩ <;>
          obtain ⟨rfl, rfl⟩ := Prod.mk.inj (hsignup.symm.trans hcase)
        · exact ⟨hguarded.not_directory, id, rfl⟩
        · have hwritten := writeDatabase_node_self hloc' hguarded.not_directory
          dsimp only
          rw [if_pos rfl]
          refine ⟨?_, ?_, ?_⟩
          · rw [hwritten]
            simp
          · rw [hwritten]
            simp
          · rw [fileAt, hwritten]
      · -- A sign-up to another one.
        refine hsame ?_ fun h => hloc (hsigns.mp h).2
        dsimp only
        split
        · exact writeDatabase_node hloc' (Ne.symm hloc) database
        · rfl
  · -- Any other handler changes nothing.
    exact hsame rfl fun ⟨handler, hmem, _⟩ => by simp [he] at hmem

/-- A guarded location stays one. -/
theorem Guarded.step (h : Guarded routes s.fs loc) (hready : Ready routes s.fs)
    (hstep : Step paramList hash routes s e o s') (hnul : nul ∉ e.request.target) :
    Guarded routes s'.fs loc := by
  obtain ⟨hdir, hnone, -⟩ := hstep.fileAt_eq hready h hnul
  refine ⟨h.named, hdir, fun hnode location config hroute hroot => ?_⟩
  exact h.apart (hnone hnode) location config hroute
    ((hstep.resolve_iff (hready.api location config hroute)).mp hroot)

end

/-! ## Runs -/

/-- One request, before which the server may be restarted: the files stay as they are, and the
indexes are gone. -/
def Lived (paramList : Str → List (Str × Str)) (hash : PasswordHash) (routes : Routes) (s : State)
    (e : Incoming) (o : Output) (s' : State) : Prop :=
  ∃ pathCounts, (pathCounts = s.pathCounts ∨ pathCounts = fun _ _ => none) ∧
    Step paramList hash routes ⟨s.fs, pathCounts⟩ e o s'

section Runs

variable {paramList : Str → List (Str × Str)} {hash : PasswordHash} {routes : Routes}
variable {s₀ s s' : State} {loc : Location} {tr : List (Incoming × Output)}
variable {e : Incoming} {o : Output}

/-- A request without a restart. -/
theorem Step.lived (hstep : Step paramList hash routes s e o s') :
    Lived paramList hash routes s e o s' := ⟨_, .inl rfl, hstep⟩

/-- What a run keeps of the paths of its configuration, and what it makes of the file at a guarded
location. -/
theorem guarded_of_run (hready : Ready routes s₀.fs) (hguarded : Guarded routes s₀.fs loc)
    (hrun : Run (Lived paramList hash routes) s₀ tr s)
    (hnul : ∀ io ∈ tr, nul ∉ io.1.request.target) :
    Ready routes s.fs ∧ Guarded routes s.fs loc ∧
      (∀ kind e, Asks routes s.fs loc kind e ↔ Asks routes s₀.fs loc kind e) ∧
      fileAt s.fs loc = (signups routes s₀.fs loc tr).foldl
        (fun database body => (signupString hash database body).2) (fileAt s₀.fs loc) := by
  revert hnul
  refine hrun.invariant (fun tr s => (∀ io ∈ tr, nul ∉ io.1.request.target) →
    Ready routes s.fs ∧ Guarded routes s.fs loc ∧
      (∀ kind e, Asks routes s.fs loc kind e ↔ Asks routes s₀.fs loc kind e) ∧
      fileAt s.fs loc = (signups routes s₀.fs loc tr).foldl
        (fun database body => (signupString hash database body).2) (fileAt s₀.fs loc))
    (fun _ => ⟨hready, hguarded, fun _ _ => Iff.rfl, rfl⟩) fun tr s e o s' _ ih hlived hnul => ?_
  obtain ⟨pathCounts, -, hstep⟩ := hlived
  obtain ⟨hready, hguarded, hasks, hfile⟩ := ih fun io hio => hnul io (by simp [hio])
  have htarget := hnul (e, o) (by simp)
  -- The request finds the files as they are.
  have hready : Ready routes (State.mk s.fs pathCounts).fs := hready
  have hguarded : Guarded routes (State.mk s.fs pathCounts).fs loc := hguarded
  refine ⟨hready.step hstep, hguarded.step hready hstep htarget,
    fun kind e' => (hready.asks_iff hstep kind e').trans (hasks kind e'), ?_⟩
  rw [(hstep.fileAt_eq hready hguarded htarget).2.2, hfile, signups_concat, List.foldl_append]
  by_cases he : Asks routes s₀.fs loc .signupSubmit e
  · rw [if_pos ((hasks _ e).mpr he), if_pos he]
    rfl
  · rw [if_neg fun h => he ((hasks _ e).mp h), if_neg he]
    rfl

/-- In every run, with restarts or without, the file at a guarded location is what the sign-ups to
it have made of it, one after the other, whatever else is requested in between. -/
theorem fileAt_of_run (hready : Ready routes s₀.fs) (hguarded : Guarded routes s₀.fs loc)
    (hrun : Run (Lived paramList hash routes) s₀ tr s)
    (hnul : ∀ io ∈ tr, nul ∉ io.1.request.target) :
    fileAt s.fs loc = (signups routes s₀.fs loc tr).foldl
      (fun database body => (signupString hash database body).2) (fileAt s₀.fs loc) :=
  (guarded_of_run hready hguarded hrun hnul).2.2.2

end Runs

/-! A server with an API location and an authentication location. -/

/-- A configuration with both. -/
def samplePaths : List Path :=
  [{ type := .api, endpoint := "/api".toList, root := "/r".toList },
    { type := .auth, endpoint := "/auth".toList,
      configKeyToPathMap := fun key =>
        if key = "data_path".toList then "/d".toList else '/' :: key }]

/-- Its table. -/
def sampleRoutes : Routes := fun location =>
  if location = "/api".toList then some ⟨.api, samplePaths⟩
  else if location = "/auth".toList then some ⟨.authentication, samplePaths⟩
  else if location = "/".toList then some ⟨.handler404, samplePaths⟩
  else none

/-- Its directories, with nothing in them. -/
def sampleStart : State where
  fs := (FileSystem.empty.set [['r']] (some .directory)).set [['d']] (some .directory)
  pathCounts _ _ := none

/-- The handler of the authentication location. -/
def sampleHandler : AuthenticationHandler :=
  createAuthentication ⟨.authentication, samplePaths⟩ "/auth".toList

/-- Where its database is. -/
def sampleDatabase : Location := [['d'], "user_database.txt".toList]

/-- A request for this handler. -/
def sampleRequest (name body : Str) : Incoming where
  cookie := []
  request := ⟨.post, "/auth/".toList ++ name, body⟩
  listing := []
  text := []
  smtp := ⟨true, true, true⟩

/-- A name that does not make a key is cut off. -/
theorem matchRoute_cut {routes : Routes} {location name : Str}
    (hnone : routes (location ++ '/' :: name) = none) (hname : '/' ∉ name) :
    matchRoute routes (location ++ '/' :: name) = matchRoute routes location := by
  have hsplit : splitLast '/' (location ++ '/' :: name) = some (location, name) :=
    splitLast_eq_some.mpr ⟨rfl, hname⟩
  rw [matchRoute, hnone, if_neg (by simp)]
  split
  · next before behind heq =>
    obtain ⟨rfl, -⟩ := Prod.mk.inj (Option.some.inj (hsplit.symm.trans heq))
    rfl
  · next heq =>
    rw [hsplit] at heq
    cases heq

/-- A key of a table, with one name behind it that does not make another key. -/
theorem matchRoute_append {routes : Routes} {location name : Str} (hkey : (routes location).isSome)
    (hnone : routes (location ++ '/' :: name) = none) (hname : '/' ∉ name) :
    matchRoute routes (location ++ '/' :: name) = location := by
  rw [matchRoute_cut hnone hname, matchRoute, if_pos hkey]

/-- They are for the handler. -/
theorem authentication_sampleRequest {name : Str} (hname : '/' ∉ name) (body : Str) :
    authentication sampleRoutes (sampleRequest name body) = some sampleHandler := by
  have hmatch : matchRoute sampleRoutes (sampleRequest name body).request.target = "/auth".toList :=
    @matchRoute_append sampleRoutes "/auth".toList name (by decide) (by simp [sampleRoutes]) hname
  unfold authentication
  rw [hmatch]
  rfl

/-- The table has no other handler for authentication. -/
theorem authentication_sample {e : Incoming} {handler : AuthenticationHandler}
    (h : authentication sampleRoutes e = some handler) : handler = sampleHandler := by
  unfold authentication at h
  dsimp only at h
  split at h
  · next config hroute =>
    unfold sampleRoutes at hroute
    split_ifs at hroute with h₁ h₂ h₃
    · cases hroute
    · obtain rfl : samplePaths = config := by simpa using hroute
      replace h₂ : matchRoute sampleRoutes e.request.target = "/auth".toList := h₂
      rw [h₂] at h
      exact (Option.some.inj h).symm
    · cases hroute
  · cases h

/-- The root of its API location is `/r`. -/
theorem root_sample {location : Str} {config : List Path}
    (hroute : sampleRoutes location = some ⟨.api, config⟩) :
    sampleStart.fs.resolve (getRoot config location) = some [['r']] := by
  unfold sampleRoutes at hroute
  split_ifs at hroute with h₁ h₂ h₃
  · obtain rfl : samplePaths = config := by simpa using hroute
    subst h₁
    decide
  · cases hroute
  · cases hroute

/-- The path of the database. -/
theorem resolve_sampleDatabase :
    sampleStart.fs.resolve sampleHandler.database = some sampleDatabase := by decide

/-- It is not too long. -/
theorem fits_sample : sampleHandler.DatabaseFits := by decide

/-- The paths of this configuration lead somewhere. -/
theorem ready_sample : Ready sampleRoutes sampleStart.fs where
  api location config hroute := ⟨_, root_sample hroute⟩
  database e handler he := by
    rw [authentication_sample he]
    exact ⟨_, resolve_sampleDatabase⟩

/-- Its database is guarded. -/
theorem guarded_sample : Guarded sampleRoutes sampleStart.fs sampleDatabase where
  named name hname id := by
    obtain rfl : "user_database.txt".toList = name := by simpa [sampleDatabase] using hname
    have hstoi : stoi "user_database.txt".toList = .error .invalidArgument := by decide
    rw [hstoi]
    simp
  not_directory := by decide
  apart _ location config hroute := by
    rw [root_sample hroute]
    decide

/-- The requests of a name are of its kind. -/
theorem asks_sample {name : Str} (hname : '/' ∉ name) {kind : RequestKind}
    (hkind : sampleHandler.requestKind ("/auth/".toList ++ name) = kind) (body : Str) :
    Asks sampleRoutes sampleStart.fs sampleDatabase kind (sampleRequest name body) :=
  ⟨sampleHandler, authentication_sampleRequest hname body, hkind, resolve_sampleDatabase⟩

/-- What a sign-up writes. -/
def sampleRecord : Str :=
  record 1 "e@x".toList "n".toList (sampleHash.hashPass "pw".toList) ++ ['\n']

/-- The first sign-up. -/
theorem signupString_sample :
    signupString sampleHash none "n|pw|e@x".toList = (true, some sampleRecord) := by decide

/-- The request for it is answered. -/
theorem step_sample : ∃ s, Step (fun _ => []) sampleHash sampleRoutes sampleStart
    (sampleRequest "signup-submit".toList "n|pw|e@x".toList)
    ((⟨200, [], "OK".toList⟩, []), []) s := by
  have hread : readDatabase sampleStart.fs sampleHandler.database = none := by decide
  have hkind : sampleHandler.requestKind ("/auth/".toList ++ "signup-submit".toList) =
      .signupSubmit := by decide
  obtain ⟨fs, hrespond⟩ := @AuthenticationHandler.respond_signupSubmit sampleHandler sampleHash
    ⟨true, true, true⟩ sampleStart.fs
    (sampleRequest "signup-submit".toList "n|pw|e@x".toList).request none hkind hread
  have hanswer : (signupString sampleHash none
      (sampleRequest "signup-submit".toList "n|pw|e@x".toList).request.body).1 = true :=
    congrArg Prod.fst signupString_sample
  have huser : updateUser (fun _ => []) (sampleRequest "signup-submit".toList
      "n|pw|e@x".toList).cookie ⟨0, [], [], false⟩ = .ok (false, ⟨0, [], [], false⟩) := rfl
  rw [hanswer, if_pos rfl] at hrespond
  exact ⟨_, step_authentication huser (authentication_sampleRequest (by decide) _) hrespond
    (fits_sample.not_tooLong (by decide) _)⟩

/-- The database behind the first sign-up. -/
theorem fileAt_of_run_signup : ∃ s : State, fileAt s.fs sampleDatabase = some sampleRecord := by
  obtain ⟨s, hstep⟩ := step_sample
  have hfile := fileAt_of_run ready_sample guarded_sample (Run.nil.snoc hstep.lived)
    (by simp [sampleRequest]; decide)
  have hasks : Asks sampleRoutes sampleStart.fs sampleDatabase .signupSubmit
      (sampleRequest "signup-submit".toList "n|pw|e@x".toList) :=
    asks_sample (by decide) (by decide) _
  have hstart : fileAt sampleStart.fs sampleDatabase = none := by decide
  have hbodies := signups_concat sampleRoutes sampleStart.fs sampleDatabase []
    (sampleRequest "signup-submit".toList "n|pw|e@x".toList) ((⟨200, [], "OK".toList⟩, []), [])
  rw [if_pos hasks] at hbodies
  rw [hbodies, hstart] at hfile
  exact ⟨s, hfile.trans (congrArg Prod.snd signupString_sample)⟩

end CrazyCode.Site
