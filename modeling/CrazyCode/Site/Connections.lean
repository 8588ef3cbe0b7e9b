import CrazyCode.Site.Traces

/-!
# Connections

The server above its requests: `server::start_accept` and `handle_accept`, and the sessions from
`start` to `handle_write`. Each waits for an operation of the system. When it completes, its handler
runs on a thread of its own, action by action, and between two of its actions any other handler may
run. A session is made on the heap and deletes itself, so a handler could find it deleted. It never
does (`sessions_safe`). A session whose request was read is not deleted any more.

What a handler does to the files is one action, `respond`, from `update_user` to the response: here
requests are handled one at a time, in any order. What two requests do to each other when they
overlap there is in `Api/Concurrent` and `Profile/Concurrent`. With this, the next action of every
handler can be done but for a few exceptions (`acts_iff`).
-/

namespace CrazyCode.Site

open Text Decimal Posix Profile Session
open Server hiding Location

/-! ## Operations and handlers -/

/-- An operation under way, for a session: a connection is to be accepted on its socket, or a
request is to be read from it. -/
inductive Operation where
  | accept (session : ℕ)
  | read (session : ℕ)
deriving DecidableEq

/-- The session of an operation. -/
def Operation.session : Operation → ℕ
  | .accept i => i
  | .read i => i

/-- The operation waits for a connection. -/
def Operation.isAccept : Operation → Bool
  | .accept _ => true
  | .read _ => false

/-- What becomes of the client of a request. -/
inductive Client where
  /-- It takes the answer. -/
  | there
  /-- It has gone when its request is handled. -/
  | gone
  /-- It goes then, and `bhttp::write` throws. -/
  | lost
deriving DecidableEq

/-- An operation that has completed: a connection is accepted, or not; a request is not read; or it
is read. -/
inductive Completion where
  | accept (session : ℕ) (error : Bool)
  | failed (session : ℕ)
  | request (session : ℕ) (e : Incoming) (client : Client)

/-- The operation that has completed. -/
def Completion.operation : Completion → Operation
  | .accept i _ => .accept i
  | .failed i => .read i
  | .request i _ _ => .read i

/-- The session whose request is read. -/
def Completion.reader : Completion → Option ℕ
  | .request i _ _ => some i
  | _ => none

/-- What handlers do to sessions. -/
inductive Action where
  /-- `session::start`, which begins to read a request -/
  | start (session : ℕ)
  /-- `delete` -/
  | delete (session : ℕ)
  /-- `server::start_accept` -/
  | startAccept
  /-- anything else that looks at a session, for a log -/
  | use (session : ℕ)
  /-- the request is handled -/
  | respond (session : ℕ) (e : Incoming) (client : Client)

/-- The session of an action. -/
def Action.session : Action → Option ℕ
  | .start i => some i
  | .delete i => some i
  | .startAccept => none
  | .use i => some i
  | .respond i _ _ => some i

/-- The session that an action starts or deletes. -/
def Action.ends : Action → Option ℕ
  | .start i => some i
  | .delete i => some i
  | _ => none

/-- The action makes the next session. -/
def Action.isStartAccept : Action → Bool
  | .startAccept => true
  | _ => false

/-- The handler of an operation: `server::handle_accept`, or `session::handle_read` with
`write_to_socket` and `handle_write`. -/
def handler : Completion → List Action
  | .accept i false => [.start i, .startAccept]
  | .accept i true => [.delete i, .startAccept]
  | .failed i => [.use i, .delete i]
  | .request i e client => [.use i, .respond i e client, .use i]

/-- The sessions on the heap, the next one that is made, and the operations under way. -/
structure Io where
  heap : List ℕ
  fresh : ℕ
  operations : List Operation

/-- `server::start_accept`: `get_session` makes a session. -/
def Io.startAccept (io : Io) : Io :=
  ⟨io.fresh :: io.heap, io.fresh + 1, .accept io.fresh :: io.operations⟩

/-- An action, which has no meaning when its session is deleted. -/
def Io.act (io : Io) : Action → Option Io
  | .start i =>
    if i ∈ io.heap then some { io with operations := .read i :: io.operations } else none
  | .delete i => if i ∈ io.heap then some { io with heap := io.heap.erase i } else none
  | .startAccept => some io.startAccept
  | .use i => if i ∈ io.heap then some io else none
  | .respond i _ _ => if i ∈ io.heap then some io else none

/-- The sessions with their operations, what is left of each handler that runs, and what the
handlers work on. -/
structure Connected where
  io : Io
  handlers : List (List Action)
  site : State

/-- What is left of all handlers. -/
def Connected.actions (s : Connected) : List Action := s.handlers.flatten

/-- A server that has called `start_accept` for the first time. -/
def listen (site : State) : Connected := ⟨Io.startAccept ⟨[], 0, []⟩, [], site⟩

variable (paramList : Str → List (Str × Str)) (routes : Routes)

/-- `handle_read` when the client has gone. The handler is made, which scans the root of an API
location, and is not asked anything. -/
def handleGone (s : State) (e : Incoming) : Except Failure State :=
  match updateUser paramList e.cookie ⟨0, [], [], false⟩ with
  | .error error => .error (.cookie error)
  | .ok _ =>
    let location := matchRoute routes e.request.target
    match routes location with
    | some ⟨.api, config⟩ =>
      match Api.construct (getRoot config location) e.listing ⟨s.fs, s.pathCounts location⟩ with
      | .ok pathCounts => .ok ⟨s.fs, Function.update s.pathCounts location pathCounts⟩
      | .error error => .error (.scan error)
    | some _ => .ok s
    | none => .error .nullFactory

/-- A request of a client that has gone. For an API request the listing is one of the entries below
the root. -/
structure Gone (s : State) (e : Incoming) (s' : State) : Prop where
  listed : ∀ config top, routes (matchRoute routes e.request.target) = some ⟨.api, config⟩ →
    s.fs.resolve (getRoot config (matchRoute routes e.request.target)) = some top →
    Api.IsListing s.fs top e.listing
  read : handleGone paramList routes s e = .ok s'

variable (step : State → Incoming → Output → State → Prop)
variable (gone : State → Incoming → State → Prop)

/-- What an action does to the files and indexes. An answer that cannot be written ends the
server. -/
def Does (s : State) : Action → Option Output → State → Prop
  | .respond _ e .there, some o, s' => step s e o s'
  | .respond _ e .gone, none, s' => gone s e s'
  | .start _, none, s' => s' = s
  | .delete _, none, s' => s' = s
  | .startAccept, none, s' => s' = s
  | .use _, none, s' => s' = s
  | _, _, _ => False

/-- What happens: an operation completes, or a handler comes to its next action. -/
inductive Moment where
  | completes (c : Completion)
  | acts (a : Action)

/-- One moment of the server. -/
inductive ConnectionStep : Connected → Moment → Option Output → Connected → Prop
  | completes {io : Io} {handlers : List (List Action)} {site : State} {c : Completion} :
      c.operation ∈ io.operations →
      ConnectionStep ⟨io, handlers, site⟩ (.completes c) none
        ⟨{ io with operations := io.operations.erase c.operation }, handler c :: handlers, site⟩
  | acts {io io' : Io} {before after : List (List Action)} {site site' : State} {a : Action}
      {rest : List Action} {o : Option Output} :
      io.act a = some io' → Does step gone site a o site' →
      ConnectionStep ⟨io, before ++ (a :: rest) :: after, site⟩ (.acts a) o
        ⟨io', before ++ rest :: after, site'⟩

/-- The sessions whose requests are read in a run. -/
def requestsRead (tr : List (Moment × Option Output)) : List ℕ :=
  tr.filterMap fun
    | (.completes c, _) => c.reader
    | _ => none

/-- The sessions on the heap are those of the operations under way, those that `actions` are about
to start or to delete, and those whose request was read. Exactly one operation waits for a
connection, or one action is about to ask for it. -/
structure Owned (io : Io) (actions : List Action) (read : List ℕ) : Prop where
  heap : io.heap.Perm (io.operations.map Operation.session ++ actions.filterMap Action.ends ++ read)
  nodup : io.heap.Nodup
  fresh : ∀ i ∈ io.heap, i < io.fresh
  accept : io.operations.countP Operation.isAccept + actions.countP Action.isStartAccept = 1

/-- The sessions are owned, and what is left of the handlers is what they are written as. -/
structure Safe (s : Connected) (read : List ℕ) : Prop where
  owned : Owned s.io s.actions read
  handlers : ∀ rest ∈ s.handlers, ∃ c, rest <:+ handler c ∧ ∀ i ∈ c.reader, i ∈ read

section

variable {paramList routes step gone}
variable {hash : PasswordHash} {top : Str → Location} {s s' : Connected} {io io' : Io}
variable {actions : List Action} {read : List ℕ} {tr : List (Moment × Option Output)}

/-- The session of an action is ended by what is left of its handler, or its request was read. -/
theorem session_of_suffix {c : Completion} {a : Action} {rest : List Action}
    (h : a :: rest <:+ handler c) {i : ℕ} (hi : a.session = some i) :
    i ∈ (a :: rest).filterMap Action.ends ∨ c.reader = some i := by
  rcases c with ⟨j, _ | _⟩ | j | ⟨j, e, client⟩ <;>
    simp only [handler, List.suffix_cons_iff, List.cons.injEq, List.suffix_nil] at h <;>
    grind [Action.session, Action.ends, Completion.reader]

/-- A completed operation hands its session to its handler, or its request is read. -/
theorem handler_ends (c : Completion) :
    (handler c).filterMap Action.ends ++ c.reader.toList = [c.operation.session] := by
  rcases c with ⟨j, _ | _⟩ | j | ⟨j, e, client⟩ <;> rfl

/-- The handler of an accepted connection asks for the next one. -/
theorem handler_accept (c : Completion) :
    (handler c).countP Action.isStartAccept = if c.operation.isAccept then 1 else 0 := by
  rcases c with ⟨j, _ | _⟩ | j | ⟨j, e, client⟩ <;> rfl

/-- The order of the actions does not matter. -/
theorem Owned.perm {actions' : List Action} (h : Owned io actions read)
    (hperm : actions.Perm actions') : Owned io actions' read where
  heap := h.heap.trans (((hperm.filterMap Action.ends).append_left _).append_right read)
  nodup := h.nodup
  fresh := h.fresh
  accept := by rw [← hperm.countP_eq Action.isStartAccept, h.accept]

/-- An operation completes. -/
theorem Owned.completes {c : Completion} (h : Owned io actions read)
    (hop : c.operation ∈ io.operations) :
    Owned { io with operations := io.operations.erase c.operation } (handler c ++ actions)
      (read ++ c.reader.toList) where
  heap := by
    refine List.perm_iff_count.mpr fun i => ?_
    have hheap := List.perm_iff_count.mp h.heap i
    have hops := List.perm_iff_count.mp ((List.perm_cons_erase hop).map Operation.session) i
    have hends := congrArg (List.count i) (handler_ends c)
    simp only [List.filterMap_append, List.count_append, List.map_cons, List.count_cons,
      List.count_nil] at hheap hops hends ⊢
    omega
  nodup := h.nodup
  fresh := h.fresh
  accept := by
    have haccept := h.accept
    have hops := (List.perm_cons_erase hop).countP_eq Operation.isAccept
    rw [List.countP_cons] at hops
    dsimp only
    rw [List.countP_append, handler_accept c]
    omega

/-- An action is done. -/
theorem Owned.act {a : Action} (h : Owned io (a :: actions) read) (hact : io.act a = some io') :
    Owned io' actions read := by
  obtain ⟨hheap, hnodup, hfresh, haccept⟩ := h
  cases a with
  | start i =>
    obtain ⟨-, hact⟩ := Option.ite_none_right_eq_some.mp hact
    obtain rfl := Option.some.inj hact
    -- The session goes over from the action to the operation that reads from it.
    refine ⟨hheap.trans (List.perm_iff_count.mpr fun j => ?_), hnodup, hfresh, haccept⟩
    simp only [List.filterMap_cons, Action.ends, List.map_cons, Operation.session,
      List.count_append, List.count_cons]
    omega
  | delete i =>
    obtain ⟨-, hact⟩ := Option.ite_none_right_eq_some.mp hact
    obtain rfl := Option.some.inj hact
    refine ⟨?_, hnodup.erase i, fun j hj => hfresh j (List.mem_of_mem_erase hj), haccept⟩
    -- Nobody else has the session.
    have hcons : io.heap.Perm (i :: (io.operations.map Operation.session ++
        actions.filterMap Action.ends ++ read)) := by
      refine hheap.trans (List.perm_iff_count.mpr fun j => ?_)
      simp only [List.filterMap_cons, Action.ends, List.count_append, List.count_cons]
      omega
    exact (List.cons_perm_iff_perm_erase.mp hcons.symm).2.symm
  | startAccept =>
    obtain rfl := Option.some.inj hact
    refine ⟨hheap.cons io.fresh, List.nodup_cons.mpr ⟨?_, hnodup⟩, fun j hj => ?_, ?_⟩
    · exact fun hmem => absurd (hfresh _ hmem) (lt_irrefl _)
    · rcases List.mem_cons.mp hj with rfl | hj
      · exact Nat.lt_succ_self _
      · exact (hfresh j hj).trans (Nat.lt_succ_self _)
    · simp only [Io.startAccept, List.countP_cons, Operation.isAccept, Action.isStartAccept]
        at haccept ⊢
      omega
  | use i =>
    obtain ⟨-, hact⟩ := Option.ite_none_right_eq_some.mp hact
    obtain rfl := Option.some.inj hact
    exact ⟨hheap, hnodup, hfresh, haccept⟩
  | respond i e client =>
    obtain ⟨-, hact⟩ := Option.ite_none_right_eq_some.mp hact
    obtain rfl := Option.some.inj hact
    exact ⟨hheap, hnodup, hfresh, haccept⟩

/-- The session of the next action of a handler is there. -/
theorem Safe.mem_heap (h : Safe s read) {a : Action} {rest : List Action}
    (hmem : a :: rest ∈ s.handlers) {i : ℕ} (hi : a.session = some i) : i ∈ s.io.heap := by
  obtain ⟨c, hsuffix, hread⟩ := h.handlers _ hmem
  refine h.owned.heap.mem_iff.mpr ?_
  rcases session_of_suffix hsuffix hi with hends | hreader
  · obtain ⟨b, hb, hbi⟩ := List.mem_filterMap.mp hends
    refine List.mem_append_left _ (List.mem_append_right _ (List.mem_filterMap.mpr ⟨b, ?_, hbi⟩))
    exact List.mem_flatten.mpr ⟨_, hmem, hb⟩
  · exact List.mem_append_right _ (hread i hreader)

/-- So the next action of a handler has a meaning. -/
theorem Safe.exists_act (h : Safe s read) {a : Action} {rest : List Action}
    (hmem : a :: rest ∈ s.handlers) : ∃ io', s.io.act a = some io' := by
  have hheap := fun i => @Safe.mem_heap s read h a rest hmem i
  cases a with
  | start i => exact ⟨_, if_pos (hheap i rfl)⟩
  | delete i => exact ⟨_, if_pos (hheap i rfl)⟩
  | startAccept => exact ⟨_, rfl⟩
  | use i => exact ⟨_, if_pos (hheap i rfl)⟩
  | respond i e client => exact ⟨_, if_pos (hheap i rfl)⟩

/-- The server begins with one session, which waits for a connection. -/
theorem safe_listen (site : State) : Safe (listen site) [] where
  owned := @Owned.act ⟨[], 0, []⟩ _ [] [] .startAccept ⟨.refl [], .nil, by simp, rfl⟩ rfl
  handlers rest hrest := absurd hrest List.not_mem_nil

/-- What is left of the handlers, one action before. -/
theorem actions_perm {before after : List (List Action)} {site site' : State} {a : Action}
    {rest : List Action} : (Connected.actions ⟨io, before ++ (a :: rest) :: after, site⟩).Perm
      (a :: Connected.actions ⟨io', before ++ rest :: after, site'⟩) := by
  simp only [Connected.actions, List.flatten_append, List.flatten_cons, List.cons_append]
  exact List.perm_middle

/-- Whatever happens, the sessions stay safe. -/
theorem Safe.keeps {m : Moment} {o : Option Output} (h : Safe s read)
    (hstep : ConnectionStep step gone s m o s') : Safe s' (read ++ requestsRead [(m, o)]) := by
  cases hstep with
  | @completes io handlers site c hop =>
    have hread : requestsRead [(.completes c, none)] = c.reader.toList := by
      cases hreader : c.reader <;> simp [requestsRead, hreader]
    rw [hread]
    refine ⟨h.owned.completes hop, fun rest hrest => ?_⟩
    rcases List.mem_cons.mp hrest with rfl | hrest
    · exact ⟨c, List.suffix_rfl, fun i hi => List.mem_append_right _ (Option.mem_toList.mpr hi)⟩
    · obtain ⟨c', hsuffix, hmem⟩ := h.handlers rest hrest
      exact ⟨c', hsuffix, fun i hi => List.mem_append_left _ (hmem i hi)⟩
  | @acts io io' before after site site' a rest o hact hdoes =>
    have hread : read ++ requestsRead [(.acts a, o)] = read := List.append_nil read
    rw [hread]
    have hperm : (Connected.actions ⟨io, before ++ (a :: rest) :: after, site⟩).Perm
        (a :: Connected.actions ⟨io', before ++ rest :: after, site'⟩) := actions_perm
    refine ⟨(h.owned.perm hperm).act hact, fun rest' hrest => ?_⟩
    rcases List.mem_append.mp hrest with hmem | hmem
    · exact h.handlers rest' (List.mem_append_left _ hmem)
    · rcases List.mem_cons.mp hmem with rfl | hmem
      · obtain ⟨c, hsuffix, hmem⟩ := h.handlers _ (List.mem_append_right _ List.mem_cons_self)
        exact ⟨c, (List.suffix_cons a rest').trans hsuffix, hmem⟩
      · exact h.handlers rest' (List.mem_append_right _ (List.mem_cons_of_mem _ hmem))

/-- The sessions in a run, whatever the handlers do to the files and indexes. -/
theorem safe_of_run {site : State} (hrun : Run (ConnectionStep step gone) (listen site) tr s) :
    Safe s (requestsRead tr) := by
  refine hrun.invariant (fun tr s => Safe s (requestsRead tr)) (safe_listen site) ?_
  intro tr s m o s' _ hsafe hstep
  have hread : requestsRead (tr ++ [(m, o)]) = requestsRead tr ++ requestsRead [(m, o)] :=
    List.filterMap_append
  rw [hread]
  exact hsafe.keeps hstep

/-- In every run, in whichever order the operations complete, however the actions of their handlers
interleave, and whatever they do to the files and indexes: the next action of every handler finds
its session; one operation waits for a connection, or one handler is about to ask for it; and the
sessions on the heap are, each once, those of the operations under way, those that a handler is
about to start or to delete, and those whose request was read, which are never deleted. -/
theorem sessions_safe {site : State} (hrun : Run (ConnectionStep step gone) (listen site) tr s) :
    (∀ a rest, a :: rest ∈ s.handlers → (s.io.act a).isSome) ∧
      s.io.operations.countP Operation.isAccept + s.actions.countP Action.isStartAccept = 1 ∧
      s.io.heap.Nodup ∧
      s.io.heap.Perm (s.io.operations.map Operation.session ++ s.actions.filterMap Action.ends ++
        requestsRead tr) := by
  have hsafe := safe_of_run hrun
  refine ⟨fun a rest hmem => ?_, hsafe.owned.accept, hsafe.owned.nodup, hsafe.owned.heap⟩
  obtain ⟨io', hio⟩ := hsafe.exists_act hmem
  rw [hio]
  rfl

/-! ## The requests of the connections -/

/-- A request whose client has gone changes nothing on a running server, and can be handled if its
cookie can be read. -/
theorem Running.handleGone {s : State} {e : Incoming} (h : Running routes top s)
    (hlisted : ∀ config top, routes (matchRoute routes e.request.target) = some ⟨.api, config⟩ →
      s.fs.resolve (getRoot config (matchRoute routes e.request.target)) = some top →
      Api.IsListing s.fs top e.listing) (htidy : Tidy routes) :
    handleGone paramList routes s e = match updateUser paramList e.cookie ⟨0, [], [], false⟩ with
      | .error error => .error (.cookie error)
      | .ok _ => .ok s := by
  unfold Site.handleGone
  cases updateUser paramList e.cookie ⟨0, [], [], false⟩ with
  | error error => rfl
  | ok user =>
    obtain ⟨⟨kind, config⟩, hroute⟩ := htidy.exists_factory e.request.target
    simp only [hroute]
    cases kind with
    | api =>
      have hroot := apiRoot_eq_some.mpr ⟨config, hroute, rfl⟩
      have hresolve := (h.layout.root _ _ hroot).2
      have hindexed := h.index _ _ hroot
      have hlisting := hlisted config _ hroute hresolve
      simp only [Api.construct_eq hresolve hindexed.store hlisting, hindexed.indexed_eq hlisting,
        Function.update_eq_self]
    | staticHandler | echo | health | sleep | authentication | apiConsole | handler404 => rfl

end

/-- The handler that has begun last comes to its next action. -/
theorem ConnectionStep.acts_head {step : State → Incoming → Output → State → Prop}
    {gone : State → Incoming → State → Prop} {io io' : Io} {handlers : List (List Action)}
    {site site' : State} {a : Action} {rest : List Action} {o : Option Output}
    (hact : io.act a = some io') (hdoes : Does step gone site a o site') :
    ConnectionStep step gone ⟨io, (a :: rest) :: handlers, site⟩ (.acts a) o
      ⟨io', rest :: handlers, site'⟩ :=
  @ConnectionStep.acts step gone io io' [] handlers site site' a rest o hact hdoes

/-- A connection is accepted, and its request is read and answered before the handler that has
accepted it asks for the next one. -/
def sampleMoments : List (Moment × Option Output) :=
  [(.completes (.accept 0 false), none), (.acts (.start 0), none),
    (.completes (.request 0 sampleVisit .there), none), (.acts (.use 0), none),
    (.acts (.respond 0 sampleVisit .there), some ((notFound, []), []))]

/-- A run with these moments. -/
theorem run_sampleMoments : ∃ s, Run (ConnectionStep
      (OrderlyStep (fun _ => []) sampleHash sampleRoutes fun _ => [['r']])
      (Gone (fun _ => []) sampleRoutes))
    (listen sampleStart) sampleMoments s ∧ [.startAccept] ∈ s.handlers := by
  have hdoes := orderlyStep_sampleVisit
  have hrun : Run (ConnectionStep
        (OrderlyStep (fun _ => []) sampleHash sampleRoutes fun _ => [['r']])
        (Gone (fun _ => []) sampleRoutes))
      (listen sampleStart) sampleMoments ⟨⟨[0], 1, []⟩, [[.use 0], [.startAccept]], sampleStart⟩ :=
    ((((Run.nil.snoc (.completes (by decide))).snoc (.acts_head rfl rfl)).snoc
      (.completes (by decide))).snoc (.acts_head rfl rfl)).snoc (.acts_head rfl hdoes)
  exact ⟨_, hrun, by simp⟩

/-- Its session stays on the heap. -/
theorem sessions_safe_visit : ∃ s : Connected,
    (∀ a rest, a :: rest ∈ s.handlers → (s.io.act a).isSome) ∧
      s.io.operations.countP Operation.isAccept + s.actions.countP Action.isStartAccept = 1 ∧
      s.io.heap.Nodup ∧
      s.io.heap.Perm (s.io.operations.map Operation.session ++ s.actions.filterMap Action.ends ++
        [0]) := by
  obtain ⟨s, hrun, -⟩ := run_sampleMoments
  exact ⟨s, sessions_safe hrun⟩

end CrazyCode.Site
