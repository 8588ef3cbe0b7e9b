import CrazyCode.Library.Run
import CrazyCode.Library.Text
import Mathlib.Data.List.Perm.Basic

/-!
# Log files

`check_log_files` of `src/server_main.cc` is called once a minute. It lists the log directory, sorts
the log files by the time of their last write, and removes the first one if there are more than a
number of them. In between the server makes log files and writes to them.

In every run the files that are removed are log files, and the oldest ones (`removed_oldest`). As
long as no more than one log file is made between two calls, their number stays within the bound and
one more (`logs_bounded`).
-/

namespace CrazyCode.Server

open Text

/-- What is in the log directory: its name, whether it is a regular file, and the time of its last
write. -/
structure LogEntry where
  name : Str
  regular : Bool
  time : ℕ
deriving DecidableEq, Repr

/-- The log files in a listing: regular files, where `find` finds the prefix at the start. -/
def logFiles (logPrefix : Str) (listing : List LogEntry) : List LogEntry :=
  listing.filter fun e => e.regular && logPrefix.isPrefixOf e.name

/-- The comparison of the sort. -/
def writtenBefore (a b : LogEntry) : Bool := a.time ≤ b.time

/-- `check_log_files`: the file that is removed. The order of the listing is that of the system, so
that any of the oldest files may be the first one. -/
def checkLogFiles (logPrefix : Str) (maxLogFiles : ℕ) (listing : List LogEntry) : Option LogEntry :=
  let sorted := (logFiles logPrefix listing).mergeSort writtenBefore
  if maxLogFiles < sorted.length then sorted.head? else none

/-- The log directory, and the time. -/
structure LogDirectory where
  files : List LogEntry
  now : ℕ

/-- What happens to it: a log file is made, or is written to; something happens to other files; or
`check_log_files` is called, and gets a listing. -/
inductive LogEvent where
  | create (name : Str)
  | write (name : Str)
  | other
  | check (listing : List LogEntry)

/-- One event, and the file that it removes. -/
def LogStep (logPrefix : Str) (maxLogFiles : ℕ) (d : LogDirectory) (e : LogEvent)
    (o : Option LogEntry)
    (d' : LogDirectory) : Prop :=
  d.now ≤ d'.now ∧
    match e with
    | .create name => o = none ∧ logPrefix <+: name ∧ d'.files = ⟨name, true, d'.now⟩ :: d.files
    | .write name => o = none ∧ d'.files = d.files.map fun f =>
        if f.name = name then { f with time := d'.now } else f
    | .other => o = none ∧ logFiles logPrefix d'.files = logFiles logPrefix d.files
    | .check listing => listing.Perm d.files ∧ o = checkLogFiles logPrefix maxLogFiles listing ∧
        d'.files = o.elim d.files d.files.erase

/-- How many log files were made since the last call. -/
def madeSinceCheck (tr : List (LogEvent × Option LogEntry)) : ℕ :=
  tr.foldl (fun n entry => match entry.1 with
    | .create _ => n + 1
    | .check _ => 0
    | _ => n) 0

section

variable {logPrefix : Str} {maxLogFiles : ℕ} {d d' d₀ : LogDirectory} {e : LogEvent}
variable {o : Option LogEntry} {listing : List LogEntry} {f g : LogEntry}
variable {tr : List (LogEvent × Option LogEntry)}

/-- A log file is a regular file with the prefix. -/
theorem mem_logFiles : f ∈ logFiles logPrefix listing ↔
    f ∈ listing ∧ f.regular = true ∧ logPrefix <+: f.name := by
  simp [logFiles]

/-- What is removed is an oldest log file, when there are too many. -/
theorem checkLogFiles_eq_some (h : checkLogFiles logPrefix maxLogFiles listing = some f) :
    f ∈ logFiles logPrefix listing ∧ maxLogFiles < (logFiles logPrefix listing).length ∧
      ∀ g ∈ logFiles logPrefix listing, f.time ≤ g.time := by
  unfold checkLogFiles at h
  dsimp only at h
  rw [List.length_mergeSort] at h
  obtain ⟨hmany, hhead⟩ := Option.ite_none_right_eq_some.mp h
  obtain ⟨rest, hsort⟩ := List.head?_eq_some_iff.mp hhead
  have hperm := List.mergeSort_perm (logFiles logPrefix listing) writtenBefore
  have hsorted := @List.pairwise_mergeSort LogEntry writtenBefore
    (fun a b c => by simp only [writtenBefore, decide_eq_true_eq]; omega)
    (fun a b => by simp only [writtenBefore, Bool.or_eq_true, decide_eq_true_eq]; omega)
    (logFiles logPrefix listing)
  rw [hsort] at hperm hsorted
  refine ⟨hperm.mem_iff.mp List.mem_cons_self, hmany, fun g hg => ?_⟩
  rcases List.mem_cons.mp (hperm.mem_iff.mpr hg) with rfl | hg
  · exact le_rfl
  · exact of_decide_eq_true ((List.pairwise_cons.mp hsorted).1 g hg)

/-- Nothing is removed when there are not too many. -/
theorem checkLogFiles_eq_none (h : checkLogFiles logPrefix maxLogFiles listing = none) :
    (logFiles logPrefix listing).length ≤ maxLogFiles := by
  unfold checkLogFiles at h
  dsimp only at h
  rw [List.length_mergeSort] at h
  by_contra hmany
  rw [if_pos (by omega), List.head?_eq_none_iff] at h
  have hlength := congrArg List.length h
  rw [List.length_mergeSort, List.length_nil] at hlength
  omega

/-- A log file behind an event was one before, or is written to in it. -/
theorem LogStep.log_file (h : LogStep logPrefix maxLogFiles d e o d')
    (hf : f ∈ logFiles logPrefix d'.files) :
    f ∈ logFiles logPrefix d.files ∨ f.time = d'.now := by
  obtain ⟨-, h⟩ := h
  cases e with
  | create name =>
    obtain ⟨-, -, hfiles⟩ := h
    rw [hfiles, mem_logFiles] at hf
    obtain ⟨hmem, hlog⟩ := hf
    rcases List.mem_cons.mp hmem with rfl | hmem
    · exact .inr rfl
    · exact .inl (mem_logFiles.mpr ⟨hmem, hlog⟩)
  | write name =>
    obtain ⟨-, hfiles⟩ := h
    rw [hfiles, mem_logFiles] at hf
    obtain ⟨hmem, hlog⟩ := hf
    obtain ⟨g, hg, rfl⟩ := List.mem_map.mp hmem
    by_cases hname : g.name = name
    · rw [if_pos hname]
      exact .inr rfl
    · rw [if_neg hname] at hlog ⊢
      exact .inl (mem_logFiles.mpr ⟨hg, hlog⟩)
  | other => exact .inl (h.2 ▸ hf)
  | check listing =>
    obtain ⟨-, -, hfiles⟩ := h
    rw [hfiles, mem_logFiles] at hf
    refine .inl (mem_logFiles.mpr ⟨?_, hf.2⟩)
    cases o with
    | none => exact hf.1
    | some r => exact List.mem_of_mem_erase hf.1

/-- What an event removes is an oldest log file, when there are too many. -/
theorem LogStep.removed (h : LogStep logPrefix maxLogFiles d e (some f) d') :
    f ∈ logFiles logPrefix d.files ∧ maxLogFiles < (logFiles logPrefix d.files).length ∧
      (∀ g ∈ logFiles logPrefix d.files, f.time ≤ g.time) ∧ d'.files = d.files.erase f := by
  obtain ⟨-, h⟩ := h
  cases e with
  | create name => cases h.1
  | write name => cases h.1
  | other => cases h.1
  | check listing =>
    obtain ⟨hperm, hremoved, hfiles⟩ := h
    have hlogs : (logFiles logPrefix listing).Perm (logFiles logPrefix d.files) := hperm.filter _
    obtain ⟨hmem, hmany, holdest⟩ := checkLogFiles_eq_some hremoved.symm
    exact ⟨hlogs.mem_iff.mp hmem, hlogs.length_eq ▸ hmany,
      fun g hg => holdest g (hlogs.mem_iff.mpr hg), hfiles⟩

/-- How many log files there are behind an event. -/
theorem LogStep.length (h : LogStep logPrefix maxLogFiles d e o d') :
    let n := (logFiles logPrefix d.files).length
    let n' := (logFiles logPrefix d'.files).length
    match e with
    | .create _ => n' = n + 1
    | .check _ => n' = n ∧ n ≤ maxLogFiles ∨ n' + 1 = n ∧ maxLogFiles < n
    | _ => n' = n := by
  intro n n'
  cases e with
  | create name =>
    obtain ⟨-, -, hprefix, hfiles⟩ := h
    have hlog : logFiles logPrefix d'.files =
        ⟨name, true, d'.now⟩ :: logFiles logPrefix d.files := by
      rw [hfiles, logFiles, List.filter_cons_of_pos (by simpa using hprefix)]
      rfl
    exact (congrArg List.length hlog).trans (List.length_cons ..)
  | write name =>
    obtain ⟨-, -, hfiles⟩ := h
    -- A file that is written to stays what it is.
    have hsame : ∀ f : LogEntry, (fun e : LogEntry => e.regular && logPrefix.isPrefixOf e.name)
        (if f.name = name then { f with time := d'.now } else f) =
        (f.regular && logPrefix.isPrefixOf f.name) := fun f => by split <;> rfl
    have hlength : (logFiles logPrefix d'.files).length = (logFiles logPrefix d.files).length := by
      rw [hfiles, logFiles, List.filter_map, List.length_map]
      exact congrArg (fun p => (d.files.filter p).length) (funext hsame)
    exact hlength
  | other => exact congrArg List.length h.2.2
  | check listing =>
    cases o with
    | none =>
      obtain ⟨-, hperm, hnone, hfiles⟩ := h
      have hlength : (logFiles logPrefix listing).length = n := (hperm.filter _).length_eq
      have hfew := checkLogFiles_eq_none hnone.symm
      refine .inl ⟨?_, hlength ▸ hfew⟩
      exact congrArg (fun files => (logFiles logPrefix files).length) hfiles
    | some r =>
      -- One of the log files is gone.
      obtain ⟨hmem, hmany, -, hfiles⟩ := h.removed
      refine .inr ⟨?_, hmany⟩
      have herase : logFiles logPrefix d'.files = (logFiles logPrefix d.files).erase r := by
        rw [hfiles, logFiles, logFiles, List.erase_filter]
      have hlength := List.length_erase_of_mem hmem
      rw [← herase] at hlength
      dsimp only [n, n']
      omega

/-- How many log files were made since the last call, behind one more event. -/
theorem madeSinceCheck_concat (tr : List (LogEvent × Option LogEntry)) (e : LogEvent)
    (o : Option LogEntry) : madeSinceCheck (tr ++ [(e, o)]) = match e with
      | .create _ => madeSinceCheck tr + 1
      | .check _ => 0
      | _ => madeSinceCheck tr := by
  rw [madeSinceCheck, List.foldl_append]
  rfl

/-- In every run, what is removed are log files, and every log file that is left was written to
after them, or at the same time. -/
theorem removed_oldest (hstart : ∀ f ∈ logFiles logPrefix d₀.files, f.time ≤ d₀.now)
    (hrun : Run (LogStep logPrefix maxLogFiles) d₀ tr d) {e : LogEvent} {r : LogEntry}
    (hr : (e, some r) ∈ tr) : r.regular = true ∧ logPrefix <+: r.name ∧
      ∀ f ∈ logFiles logPrefix d.files, r.time ≤ f.time := by
  have hinvariant : (∀ f ∈ logFiles logPrefix d.files, f.time ≤ d.now) ∧
      ∀ e r, (e, some r) ∈ tr → (r.regular = true ∧ logPrefix <+: r.name) ∧ r.time ≤ d.now ∧
        ∀ f ∈ logFiles logPrefix d.files, r.time ≤ f.time := by
    refine hrun.invariant (fun tr d => (∀ f ∈ logFiles logPrefix d.files, f.time ≤ d.now) ∧
      ∀ e r, (e, some r) ∈ tr → (r.regular = true ∧ logPrefix <+: r.name) ∧ r.time ≤ d.now ∧
        ∀ f ∈ logFiles logPrefix d.files, r.time ≤ f.time) ⟨hstart, by simp⟩ ?_
    rintro tr d e o d' - ⟨htime, hremoved⟩ hstep
    have hnow : d.now ≤ d'.now := hstep.1
    refine ⟨fun f hf => ?_, fun e' r hmem => ?_⟩
    · rcases hstep.log_file hf with hf | hf
      · exact (htime f hf).trans hnow
      · exact hf.le
    · -- What is removed is as old as the log files there, and so are the files of earlier removals.
      have hold : (r.regular = true ∧ logPrefix <+: r.name) ∧ r.time ≤ d.now ∧
          ∀ f ∈ logFiles logPrefix d.files, r.time ≤ f.time := by
        rcases List.mem_append.mp hmem with hmem | hmem
        · exact hremoved e' r hmem
        · obtain ⟨rfl, rfl⟩ := Prod.mk.inj (List.mem_singleton.mp hmem)
          obtain ⟨hlog, -, holdest, -⟩ := hstep.removed
          exact ⟨(mem_logFiles.mp hlog).2, htime r hlog, holdest⟩
      obtain ⟨hlog, hrtime, hle⟩ := hold
      refine ⟨hlog, hrtime.trans hnow, fun f hf => ?_⟩
      rcases hstep.log_file hf with hf | hf
      · exact hle f hf
      · rw [hf]
        exact hrtime.trans hnow
  obtain ⟨⟨hregular, hprefix⟩, -, hle⟩ := hinvariant.2 e r hr
  exact ⟨hregular, hprefix, hle⟩

/-- In every run in which at most one log file is made between two calls, there are at most as many
log files as the bound and those made since the last call, and never less than at the start. -/
theorem logs_bounded (hstart : (logFiles logPrefix d₀.files).length ≤ maxLogFiles)
    (hrun : Run (LogStep logPrefix maxLogFiles) d₀ tr d)
    (hpace : ∀ pre, pre <+: tr → madeSinceCheck pre ≤ 1) :
    (logFiles logPrefix d.files).length ≤ maxLogFiles + madeSinceCheck tr ∧
      (logFiles logPrefix d₀.files).length ≤ (logFiles logPrefix d.files).length := by
  have hinvariant : (∀ pre, pre <+: tr → madeSinceCheck pre ≤ 1) →
      (logFiles logPrefix d.files).length ≤ maxLogFiles + madeSinceCheck tr ∧
        (logFiles logPrefix d₀.files).length ≤ (logFiles logPrefix d.files).length := by
    refine hrun.invariant (fun tr d => (∀ pre, pre <+: tr → madeSinceCheck pre ≤ 1) →
      (logFiles logPrefix d.files).length ≤ maxLogFiles + madeSinceCheck tr ∧
        (logFiles logPrefix d₀.files).length ≤ (logFiles logPrefix d.files).length)
      (fun _ => ⟨hstart, le_rfl⟩) ?_
    intro tr d e o d' _ ih hstep hpace
    obtain ⟨hmost, hleast⟩ := ih fun pre hpre => hpace pre (hpre.trans (List.prefix_append _ _))
    have hone := hpace tr (List.prefix_append _ _)
    have hlength := hstep.length
    have hmade := madeSinceCheck_concat tr e o
    cases e <;> dsimp only at hlength hmade <;> omega
  exact hinvariant hpace

end

/-- A log file. -/
def sampleLog : LogEntry := ⟨"s1".toList, true, 1⟩

/-- A later one. -/
def laterLog : LogEntry := ⟨"s2".toList, true, 2⟩

/-- The later one is made, and the other one is removed. -/
theorem run_sampleLog : Run (LogStep ['s'] 1) ⟨[sampleLog], 1⟩
    [(.create "s2".toList, none), (.check [laterLog, sampleLog], some sampleLog)]
    ⟨[laterLog], 2⟩ := by
  have hcreate : LogStep ['s'] 1 ⟨[sampleLog], 1⟩ (.create "s2".toList) none
      ⟨[laterLog, sampleLog], 2⟩ := ⟨by decide, rfl, by decide, rfl⟩
  have hlogs : logFiles ['s'] [laterLog, sampleLog] = [laterLog, sampleLog] := by decide
  have hsort : [laterLog, sampleLog].mergeSort writtenBefore = [sampleLog, laterLog] := by
    simp [List.mergeSort, writtenBefore, laterLog, sampleLog]
  have hremoved : checkLogFiles ['s'] 1 [laterLog, sampleLog] = some sampleLog := by
    rw [checkLogFiles, hlogs, hsort]
    rfl
  exact (Run.nil.snoc hcreate).snoc ⟨le_rfl, .refl _, hremoved.symm, by decide⟩

/-- What is removed is older than what is left. -/
theorem removed_oldest_sample : sampleLog.regular = true ∧ ['s'] <+: sampleLog.name ∧
    ∀ f ∈ logFiles ['s'] [laterLog], sampleLog.time ≤ f.time :=
  removed_oldest (by decide) run_sampleLog (List.mem_cons_of_mem _ List.mem_cons_self)

/-- One log file is left. -/
theorem logs_bounded_sample : (logFiles ['s'] [laterLog]).length ≤ 1 + 0 ∧
    (logFiles ['s'] [sampleLog]).length ≤ (logFiles ['s'] [laterLog]).length := by
  refine logs_bounded (by decide) run_sampleLog fun pre hpre => ?_
  have hmem : pre ∈ [[], [(.create "s2".toList, none)], _] := (List.mem_inits _ _).mpr hpre
  rcases List.mem_cons.mp hmem with rfl | hmem
  · decide
  · rcases List.mem_cons.mp hmem with rfl | hmem
    · decide
    · rw [List.mem_singleton.mp hmem]
      decide

end CrazyCode.Server
