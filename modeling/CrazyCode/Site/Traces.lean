import CrazyCode.Site.Accounts
import CrazyCode.Site.Progress

/-!
# Requests that leave no trace

Most requests change nothing on a running server: pages, logins and mails, whatever is asked of an
API location by a GET or without a login, and sign-ups that are refused. They can be left out of a
run, and all others are answered as before (`leaves_no_trace`). So nothing that a client gets
depends on what was only read.
-/

namespace CrazyCode.Site

open Text Decimal Posix Profile Session
open Server hiding Location

variable (paramList : Str → List (Str × Str)) (routes : Routes)

/-- A request that can change something: a POST, PUT or DELETE to an API location by a user who has
logged in, or a sign-up that is accepted. -/
def leavesTrace (io : Incoming × Output) : Bool :=
  (apiRoot routes (matchRoute routes io.1.request.target)).isSome &&
      (profileOf paramList io.1).loginStatus &&
      decide (io.1.request.method ∈ [.post, .put, .delete]) ||
    match authentication routes io.1 with
    | some handler =>
      handler.requestKind io.1.request.target = .signupSubmit && io.2.1.1.status = 200
    | none => false

section

variable {paramList routes} {hash : PasswordHash} {top : Str → Location}
variable {s s' : State} {e : Incoming}
variable {o : Output}

/-- Any other request changes nothing. -/
theorem OrderlyStep.same (hstep : OrderlyStep paramList hash routes top s e o s')
    (h : Running routes top s) (hnone : leavesTrace paramList routes (e, o) = false) : s' = s := by
  obtain ⟨hapi, hauthentication⟩ := (Bool.or_eq_false_iff ..).mp hnone
  obtain ⟨answer, profile, huser, ⟨config, res, api, happ⟩ | ⟨handler, fs, he, hrespond, rfl⟩ |
    ⟨-, -, rfl⟩⟩ := handleRead_cases hstep.step.read
  · have hroot := apiRoot_eq_some.mpr ⟨config, happ.route, rfl⟩
    have hresolve := (h.layout.root _ _ hroot).2
    have hindexed := h.index _ _ hroot
    have hlisted := hstep.step.listed config _ happ.route hresolve
    have hserve := happ.serve
    rw [Api.serve_eq hresolve hindexed.store hlisted, hindexed.indexed_eq hlisted] at hserve
    have heq : Api.handleRequest _ profile _ e.request = (res, api) := Except.ok.inj hserve
    rcases Api.handleRequest_inversion _ profile _ e.request with ⟨hsame, -⟩ |
      ⟨directory, -, -, hlogin, hmethod⟩
    · rw [heq] at hsame
      obtain rfl : api = ⟨s.fs, s.pathCounts (matchRoute routes e.request.target)⟩ := hsame
      rw [happ.state]
      exact congrArg (State.mk s.fs) (Function.update_eq_self ..)
    · have hprofile : profileOf paramList e = profile := by rw [profileOf, huser]
      have hmem : e.request.method ∈ [Verb.post, .put, .delete] := by
        rcases hmethod with ⟨hmethod, -⟩ | ⟨hmethod, -⟩ | ⟨hmethod, -⟩ <;> rw [hmethod] <;> decide
      simp [hroot, hprofile, hlogin, hmem] at hapi
  · simp only [he] at hauthentication
    rcases respond_cases hrespond with ⟨-, rfl⟩ | ⟨hkind, accepted, database, -, rfl, rfl⟩
    · rfl
    · cases accepted with
      | true => simp [hkind] at hauthentication
      | false => rfl
  · rfl

/-- The requests that can change nothing can be left out of every run of orderly requests: the
others are answered as they were, and the files and indexes are the same in the end. -/
theorem leaves_no_trace {s₀ : State} (htidy : Tidy routes) (hstart : Running routes top s₀)
    {tr : List (Incoming × Output)} (hrun : Run (OrderlyStep paramList hash routes top) s₀ tr s) :
    Run (OrderlyStep paramList hash routes top) s₀ (tr.filter (leavesTrace paramList routes)) s :=
  hrun.without (Running routes top) hstart (fun _ _ _ _ h hstep => h.step htidy hstep)
    fun _ _ _ _ h hstep hnone => hstep.same h hnone

end

/-- A request for nothing. -/
def sampleVisit : Incoming where
  cookie := []
  request := ⟨.get, "/x".toList, []⟩
  listing := []
  text := []
  smtp := ⟨true, true, true⟩

/-- The route of `/`. -/
theorem matchRoute_sampleVisit : matchRoute sampleRoutes sampleVisit.request.target = ['/'] := by
  decide +kernel

/-- It is answered with 404. -/
theorem orderlyStep_sampleVisit : OrderlyStep (fun _ => []) sampleHash sampleRoutes
    (fun _ => [['r']])
    sampleStart sampleVisit ((notFound, []), []) sampleStart where
  step := by
    refine ⟨fun config root hroute => ?_, ?_⟩
    · rw [matchRoute_sampleVisit] at hroute
      cases hroute
    · have hcookie : updateUser (fun _ => []) sampleVisit.cookie ⟨0, [], [], false⟩ =
          .ok (false, ⟨0, [], [], false⟩) := rfl
      simp only [handleRead, hcookie, matchRoute_sampleVisit]
      rfl
  target := by decide
  bounded h := by
    rw [matchRoute_sampleVisit] at h
    cases h
  not_dots h := by cases h
  email handler he := by
    have hnone : authentication sampleRoutes sampleVisit = none := by decide +kernel
    rw [hnone] at he
    cases he

/-- The first sign-up is orderly. -/
theorem orderlyStep_sampleSignup : ∃ s, OrderlyStep (fun _ => []) sampleHash sampleRoutes
    (fun _ => [['r']]) sampleStart sampleSignup.1 sampleSignup.2 s := by
  obtain ⟨s, hstep⟩ := step_sample
  have hroute : matchRoute sampleRoutes sampleSignup.1.request.target = "/auth".toList :=
    @matchRoute_append sampleRoutes "/auth".toList "signup-submit".toList (by decide)
      (by simp [sampleRoutes]) (by decide)
  refine ⟨s, hstep, by decide, fun h => ?_, fun _ => by decide,
    fun _ _ _ name password email h => ?_⟩
  · rw [hroute] at h
    cases h
  · obtain ⟨rfl, rfl, rfl⟩ : "n".toList = name ∧ "pw".toList = password ∧ "e@x".toList = email := by
      simpa using fields_sampleSignup.symm.trans h
    decide

/-- The visit can be left out before it. -/
theorem leaves_no_trace_visit : ∃ s, Run (OrderlyStep (fun _ => []) sampleHash sampleRoutes
    fun _ => [['r']]) sampleStart [sampleSignup] s := by
  obtain ⟨s, hstep⟩ := orderlyStep_sampleSignup
  have hrun := leaves_no_trace tidy_sample running_sample
    ((Run.nil.snoc orderlyStep_sampleVisit).snoc hstep)
  have hvisit :
      leavesTrace (fun _ => []) sampleRoutes (sampleVisit, ((notFound, []), [])) = false := by
    decide +kernel
  have hsignup : leavesTrace (fun _ => []) sampleRoutes sampleSignup = true := by decide +kernel
  have hfilter : [(sampleVisit, ((notFound, []), [])), sampleSignup].filter
      (leavesTrace (fun _ => []) sampleRoutes) = [sampleSignup] := by
    simp only [List.filter_cons, hvisit, hsignup, List.filter_nil]
    rfl
  exact ⟨s, hfilter ▸ hrun⟩

end CrazyCode.Site
