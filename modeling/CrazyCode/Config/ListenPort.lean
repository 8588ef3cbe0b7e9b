import CrazyCode.Config.Acceptance
import CrazyCode.Library.Decimal

/-!
# The listen port of a config

`NginxConfig.getListenPort` is `NginxConfig::get_listen_port` of `src/config_parser.cc`. It goes
through the statements of a config with a port that is -1 at first: a block sets the port to what
the same search finds in it, and a `listen` with one argument sets it and ends the loop. The check
behind the loop is made for every block too, so a block without a port ends the whole search.

Of a config with one `listen` the port is found exactly if the search comes to it on a `Straight`
way: in front of it there is no block, and every block around it is the only one among its siblings
(`getListenPort_eq_ok_iff`). What is found is what `stoi` reads, which is more than numerals.
-/

namespace CrazyCode.Config

open Text Decimal Outcome

/-- The exceptions of `get_listen_port`. -/
inductive PortError where
  /-- what `stoi` throws for the argument of a `listen` -/
  | stoi (error : StoiError)
  /-- `std::invalid_argument`, with its text -/
  | outOfRange (what : Str)
deriving DecidableEq, Repr

/-- A port number. -/
def IsPort (port : ℤ) : Prop := 1 ≤ port ∧ port ≤ 65535

instance (port : ℤ) : Decidable (IsPort port) := inferInstanceAs (Decidable (_ ∧ _))

/-- The check behind the loop. -/
def checkPort (port : ℤ) : Except PortError ℤ :=
  if port < 1 ∨ port > 65535 then
    .error (.outOfRange ("Port ".toList ++ decimal port ++ " out of range".toList))
  else .ok port

def kListen : Str := "listen".toList

mutual

/-- `child_block_->get_listen_port()`, if there is a block. -/
def NginxConfigStatement.blockPort : NginxConfigStatement → Option (Except PortError ℤ)
  | .mk _ none => none
  | .mk _ (some childBlock) => some (portLoop childBlock (-1) >>= checkPort)

/-- The loop of `get_listen_port`. -/
def portLoop : List NginxConfigStatement → ℤ → Except PortError ℤ
  | [], port => .ok port
  | statement :: config, port =>
    match statement.blockPort with
    | some blockPort => do portLoop config (← blockPort)
    | none =>
      match statement.tokens with
      | [keyword, argument] =>
        -- The `break`: what stands behind the `listen` is not looked at.
        if keyword = kListen then (stoi argument).mapError .stoi else portLoop config port
      | _ => portLoop config port

end

/-- `NginxConfig::get_listen_port`. -/
def NginxConfig.getListenPort (config : NginxConfig) : Except PortError ℤ :=
  portLoop config (-1) >>= checkPort

mutual

/-- The argument of a `listen` with one and no block, or those in the block of a statement. -/
def NginxConfigStatement.listens : NginxConfigStatement → List Str
  | .mk _ (some childBlock) => listensAll childBlock
  | .mk [keyword, argument] none => if keyword = kListen then [argument] else []
  | .mk _ none => []

/-- The arguments of the `listen` statements in a config, at every depth. -/
def listensAll : List NginxConfigStatement → List Str
  | [] => []
  | statement :: config => statement.listens ++ listensAll config

end

/-- The arguments of the `listen` statements in a config, at every depth. -/
def NginxConfig.listens (config : NginxConfig) : List Str := listensAll config

/-- The statements have no blocks. -/
def Blockless (config : NginxConfig) : Prop := ∀ statement ∈ config, statement.childBlock = none

/-- A way to the `listen` with this argument: no block is in front of it, and every block around it
is the only one among its siblings. -/
inductive Straight (argument : Str) : NginxConfig → Prop
  | listen {before behind : NginxConfig} : Blockless before →
      Straight argument (before ++ .mk [kListen, argument] none :: behind)
  | block {before behind childBlock : NginxConfig} {tokens : List Str} :
      Blockless before → Blockless behind → Straight argument childBlock →
      Straight argument (before ++ .mk tokens (some childBlock) :: behind)

@[simp] theorem NginxConfig.listens_cons (statement : NginxConfigStatement) (config : NginxConfig) :
    listens (statement :: config) = statement.listens ++ listens config := rfl

@[simp] theorem NginxConfig.listens_append (config config' : NginxConfig) :
    listens (config ++ config') = listens config ++ listens config' := by
  induction config with
  | nil => rfl
  | cons statement config ih =>
    rw [List.cons_append, listens_cons, ih, listens_cons, List.append_assoc]

@[simp] theorem NginxConfigStatement.listens_listen (argument : Str) :
    (mk [kListen, argument] none).listens = [argument] := by
  simp [listens]

@[simp] theorem NginxConfigStatement.listens_block (tokens : List Str) (childBlock : NginxConfig) :
    (mk tokens (some childBlock)).listens = childBlock.listens := rfl

/-! ## The check -/

/-- The check passes a port number, and nothing else. -/
theorem checkPort_eq_ok {port p : ℤ} : checkPort port = .ok p ↔ p = port ∧ IsPort port := by
  unfold checkPort IsPort
  split
  · next hrange => simp; omega
  · next hrange =>
    simp only [Except.ok.injEq]
    omega

/-- What is checked is found. -/
theorem bind_checkPort_eq_ok {x : Except PortError ℤ} {p : ℤ} :
    (x >>= checkPort) = .ok p ↔ x = .ok p ∧ IsPort p := by
  cases x with
  | error e => simp
  | ok port =>
    rw [ok_bind, checkPort_eq_ok]
    constructor
    · rintro ⟨rfl, hp⟩
      exact ⟨rfl, hp⟩
    · rintro ⟨hport, hp⟩
      obtain rfl := Except.ok.inj hport
      exact ⟨rfl, hp⟩

/-! ## One round of the loop -/

/-- A block ends the search, or gives it its port. -/
theorem portLoop_block (tokens : List Str) (childBlock config : NginxConfig) (port : ℤ) :
    portLoop (.mk tokens (some childBlock) :: config) port =
      childBlock.getListenPort >>= portLoop config := rfl

/-- A `listen` with one argument ends the loop. -/
theorem portLoop_listen (argument : Str) (config : NginxConfig) (port : ℤ) :
    portLoop (.mk [kListen, argument] none :: config) port = (stoi argument).mapError .stoi := by
  simp [portLoop, NginxConfigStatement.blockPort, NginxConfigStatement.tokens]

/-- A statement without a block and without a `listen` is passed over. -/
theorem portLoop_skip {tokens : List Str}
    (h : (NginxConfigStatement.mk tokens none).listens = []) (config : NginxConfig) (port : ℤ) :
    portLoop (.mk tokens none :: config) port = portLoop config port := by
  rcases tokens with _ | ⟨keyword, _ | ⟨argument, _ | ⟨token, tokens⟩⟩⟩
  · rfl
  · rfl
  · have hne : keyword ≠ kListen := by simpa [NginxConfigStatement.listens] using h
    simp [portLoop, NginxConfigStatement.blockPort, NginxConfigStatement.tokens, hne]
  · rfl

/-- A statement without a block is a `listen` or has none. -/
theorem listens_blockless (tokens : List Str) :
    (∃ argument, tokens = [kListen, argument] ∧
      (NginxConfigStatement.mk tokens none).listens = [argument]) ∨
    (NginxConfigStatement.mk tokens none).listens = [] := by
  rcases tokens with _ | ⟨keyword, _ | ⟨argument, _ | ⟨token, tokens⟩⟩⟩
  · exact .inr rfl
  · exact .inr rfl
  · by_cases hlisten : keyword = kListen
    · exact .inl ⟨argument, by rw [hlisten], by simp [NginxConfigStatement.listens, hlisten]⟩
    · exact .inr (by simp [NginxConfigStatement.listens, hlisten])
  · exact .inr rfl

/-! ## A search for one `listen` -/

/-- A search with no `listen` to find keeps the port, and comes to its end only without a block: a
block without a `listen` ends it. -/
theorem portLoop_none {config : NginxConfig} (h : config.listens = []) {port p : ℤ}
    (hp : portLoop config port = .ok p) : p = port ∧ Blockless config := by
  induction config using NginxConfig.induction generalizing port p with
  | nil => exact ⟨(Except.ok.inj hp).symm, by simp [Blockless]⟩
  | simple tokens config ih =>
    obtain ⟨hstatement, hconfig⟩ := List.append_eq_nil_iff.mp h
    rw [portLoop_skip hstatement] at hp
    obtain ⟨rfl, hblockless⟩ := ih hconfig hp
    exact ⟨rfl, List.forall_mem_cons.mpr ⟨rfl, hblockless⟩⟩
  | block tokens childBlock config ihchild _ =>
    obtain ⟨hchild, -⟩ := List.append_eq_nil_iff.mp h
    rw [portLoop_block] at hp
    obtain ⟨q, hq, -⟩ := exists_bind_ok.mp ⟨p, hp⟩
    -- The search in the block has kept the -1, which is no port.
    obtain ⟨hloop, hport⟩ := bind_checkPort_eq_ok.mp hq
    obtain ⟨rfl, -⟩ := ihchild hchild hloop
    exact absurd hport (by decide)

/-- A config without a `listen` has no port. -/
theorem getListenPort_none {config : NginxConfig} (h : config.listens = []) (p : ℤ) :
    config.getListenPort ≠ .ok p := by
  intro hp
  obtain ⟨hloop, hport⟩ := bind_checkPort_eq_ok.mp hp
  obtain ⟨rfl, -⟩ := portLoop_none h hloop
  exact absurd hport (by decide)

/-- A statement without a block in front keeps the way straight. -/
theorem Straight.cons {argument : Str} {config : NginxConfig} (h : Straight argument config)
    (tokens : List Str) : Straight argument (.mk tokens none :: config) := by
  cases h with
  | @listen before behind hbefore =>
    have hcons : Blockless (.mk tokens none :: before) := List.forall_mem_cons.mpr ⟨rfl, hbefore⟩
    exact .listen hcons
  | @block before behind childBlock _ hbefore hbehind h =>
    have hcons : Blockless (.mk tokens none :: before) := List.forall_mem_cons.mpr ⟨rfl, hbefore⟩
    exact .block hcons hbehind h

/-- A search for one `listen` that comes to its end has found it on a straight way. -/
theorem portLoop_one {config : NginxConfig} {argument : Str} (h : config.listens = [argument])
    {port p : ℤ} (hp : portLoop config port = .ok p) :
    Straight argument config ∧ stoi argument = .ok p := by
  induction config using NginxConfig.induction generalizing port p with
  | nil => cases h
  | simple tokens config ih =>
    rcases listens_blockless tokens with ⟨found, rfl, hfound⟩ | hskip
    · rw [NginxConfig.listens_cons, hfound] at h
      obtain rfl : found = argument := (List.cons.inj h).1
      rw [portLoop_listen] at hp
      exact ⟨@Straight.listen found [] config (by simp [Blockless]), mapError_eq_ok.mp hp⟩
    · rw [NginxConfig.listens_cons, hskip] at h
      rw [portLoop_skip hskip] at hp
      obtain ⟨hstraight, hread⟩ := ih h hp
      exact ⟨hstraight.cons tokens, hread⟩
  | block tokens childBlock config ihchild _ =>
    rw [portLoop_block] at hp
    obtain ⟨q, hq, hp⟩ := bind_eq_ok.mp hp
    obtain ⟨hloop, hport⟩ := bind_checkPort_eq_ok.mp hq
    rw [NginxConfig.listens_cons, NginxConfigStatement.listens_block] at h
    rcases List.append_eq_singleton_iff.mp h with ⟨hchild, -⟩ | ⟨hchild, hconfig⟩
    · exact absurd hq (getListenPort_none hchild q)
    · -- The port of the block is kept to the end, so no other block stands behind it.
      obtain ⟨hstraight, hread⟩ := ihchild hchild hloop
      obtain ⟨rfl, hblockless⟩ := portLoop_none hconfig hp
      exact ⟨@Straight.block argument [] config _ _ (by simp [Blockless]) hblockless hstraight,
        hread⟩

/-- On a straight way there is the `listen`. -/
theorem Straight.mem_listens {argument : Str} {config : NginxConfig}
    (h : Straight argument config) :
    argument ∈ config.listens := by
  induction h with
  | listen _ => simp
  | block _ _ _ ih => simp [ih]

/-- Statements without blocks and without a `listen` are passed over. -/
theorem portLoop_blockless {before : NginxConfig} (hblockless : Blockless before)
    (h : before.listens = []) (config : NginxConfig) (port : ℤ) :
    portLoop (before ++ config) port = portLoop config port := by
  induction before with
  | nil => rfl
  | cons statement before ih =>
    obtain ⟨tokens, _ | childBlock⟩ := statement
    · obtain ⟨hstatement, hbefore⟩ := List.append_eq_nil_iff.mp h
      rw [List.cons_append, portLoop_skip hstatement]
      exact ih (List.forall_mem_cons.mp hblockless).2 hbefore
    · cases (List.forall_mem_cons.mp hblockless).1

/-- A search for one `listen` on a straight way finds its port. -/
theorem Straight.portLoop {argument : Str} {config : NginxConfig} (h : Straight argument config)
    (hone : config.listens = [argument]) {p : ℤ} (hread : stoi argument = .ok p) (hp : IsPort p)
    (port : ℤ) : portLoop config port = .ok p := by
  induction h generalizing port with
  | @listen before behind hbefore =>
    have hnone : before.listens = [] := by
      simp only [NginxConfig.listens_append, NginxConfig.listens_cons,
        NginxConfigStatement.listens_listen] at hone
      rcases List.append_eq_singleton_iff.mp hone with ⟨h, -⟩ | ⟨-, h⟩
      · exact h
      · simp at h
    rw [portLoop_blockless hbefore hnone, portLoop_listen]
    exact mapError_eq_ok.mpr hread
  | @block before behind childBlock tokens hbefore hbehind h ih =>
    have hmem := h.mem_listens
    have hsplit : before.listens = [] ∧ childBlock.listens = [argument] ∧ behind.listens = [] := by
      simp only [NginxConfig.listens_append, NginxConfig.listens_cons,
        NginxConfigStatement.listens_block] at hone
      rcases List.append_eq_singleton_iff.mp hone with ⟨h, hrest⟩ | ⟨-, hrest⟩
      · rcases List.append_eq_singleton_iff.mp hrest with ⟨hchild, -⟩ | ⟨hchild, hbehind⟩
        · simp [hchild] at hmem
        · exact ⟨h, hchild, hbehind⟩
      · obtain ⟨hchild, -⟩ := List.append_eq_nil_iff.mp hrest
        simp [hchild] at hmem
    obtain ⟨hnone, hchild, hnone'⟩ := hsplit
    have hblock : childBlock.getListenPort = .ok p :=
      bind_checkPort_eq_ok.mpr ⟨ih hchild (-1), hp⟩
    rw [portLoop_blockless hbefore hnone, portLoop_block, hblock, ok_bind]
    have hrest := portLoop_blockless hbehind hnone' [] p
    rw [List.append_nil] at hrest
    exact hrest

/-- With one `listen`, a port is found exactly on a straight way, and it is what `stoi` reads. -/
theorem getListenPort_eq_ok_iff {config : NginxConfig} {argument : Str}
    (hone : config.listens = [argument]) {p : ℤ} :
    config.getListenPort = .ok p ↔ Straight argument config ∧ stoi argument = .ok p ∧ IsPort p := by
  constructor
  · intro hp
    obtain ⟨hloop, hport⟩ := bind_checkPort_eq_ok.mp hp
    obtain ⟨hstraight, hread⟩ := portLoop_one hone hloop
    exact ⟨hstraight, hread, hport⟩
  · rintro ⟨hstraight, hread, hport⟩
    exact bind_checkPort_eq_ok.mpr ⟨hstraight.portLoop hone hread hport (-1), hport⟩

/-! ## Where it is written -/

/-- The decimal numeral of a port number. -/
def IsPortNumeral (argument : Str) : Prop := ∃ p, IsPort p ∧ argument = decimal p

/-- The port is found if the argument of the `listen` is the numeral of one, and the search throws
otherwise. -/
def PortFound (config : NginxConfig) (argument : Str) : Prop :=
  (∀ p, IsPort p → argument = decimal p → config.getListenPort = .ok p) ∧
    (¬ IsPortNumeral argument → ∃ e, config.getListenPort = .error e)

/-- `stoi` reads a port off its numeral. -/
theorem stoi_port {p : ℤ} (hp : IsPort p) : stoi (decimal p) = .ok p := by
  obtain ⟨h₁, h₂⟩ := hp
  exact stoi_decimal (by unfold intMin; omega) (by unfold intMax; omega)

/-- The port of a config with one `listen` is found exactly if a numeral stands on a straight way,
and an argument that is no numeral does not, or is none from which `stoi` reads a port. -/
theorem portFound_iff {config : NginxConfig} {argument : Str}
    (hone : config.listens = [argument]) :
    PortFound config argument ↔
      (IsPortNumeral argument → Straight argument config) ∧
        (¬ IsPortNumeral argument → Straight argument config →
          ∀ p, stoi argument = .ok p → ¬ IsPort p) := by
  constructor
  · rintro ⟨hfound, hthrows⟩
    constructor
    · rintro ⟨p, hp, hnumeral⟩
      exact ((getListenPort_eq_ok_iff hone).mp (hfound p hp hnumeral)).1
    · intro hno hstraight p hread hp
      obtain ⟨e, he⟩ := hthrows hno
      have hok := (getListenPort_eq_ok_iff hone).mpr ⟨hstraight, hread, hp⟩
      rw [he] at hok
      cases hok
  · rintro ⟨hstraight, hno⟩
    constructor
    · intro p hp hnumeral
      refine (getListenPort_eq_ok_iff hone).mpr ⟨hstraight ⟨p, hp, hnumeral⟩, ?_, hp⟩
      rw [hnumeral]
      exact stoi_port hp
    · intro hnumeral
      cases hresult : config.getListenPort with
      | error e => exact ⟨e, rfl⟩
      | ok p =>
        obtain ⟨hstraight, hread, hp⟩ := (getListenPort_eq_ok_iff hone).mp hresult
        exact absurd hp (hno hnumeral hstraight p hread)

/-- A `listen` in the only block of a config. -/
theorem portFound_server :
    let config : NginxConfig := [.mk ["server".toList] (some [.mk [kListen, "80".toList] none])]
    PortFound config "80".toList ↔
      (IsPortNumeral "80".toList → Straight "80".toList config) ∧
        (¬ IsPortNumeral "80".toList → Straight "80".toList config →
          ∀ p, stoi "80".toList = .ok p → ¬ IsPort p) :=
  portFound_iff (by simp [NginxConfig.listens, listensAll, NginxConfigStatement.listens])

/-- A block in front of the `listen` hides it. -/
theorem not_portFound : ¬ ∀ input config argument, parse input = .valid config →
    NginxConfig.listens config = [argument] → PortFound config argument := by
  intro h
  have hfound := h "server { location / { } listen 80; }".toList
    [.mk ["server".toList] (some [.mk ["location".toList, ['/']] (some []),
      .mk [kListen, "80".toList] none])] "80".toList rfl rfl
  have hport := hfound.1 80 (by decide) (by decide)
  cases hport

end CrazyCode.Config
