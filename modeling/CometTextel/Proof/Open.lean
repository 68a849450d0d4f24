import CometTextel.Open
import CometTextel.Proof.Answered

/-!
# Opening a port that stays open

A failure of the operating system leaves the port closed. A failure of the initialization comes
after the port is open and leaves it so, and every later call finds it open. What the operating
system and the modem have to do for the call to succeed is said of the device alone.
-/

namespace CometTextel

/-- The call succeeds with `value` and leaves the device as `d'`. -/
def Reaction.Gives {α δ : Type} (reaction : Reaction α δ) (value : α) (d' : δ) : Prop :=
  reaction.result = .ok value ∧ reaction.after = d'

namespace Modem

variable {δ : Type}

/-- The operating system opens the port as configured, and leaves the device as `d'`. -/
def Opens (port : Port δ) (device : Bytes) (config : SerialConfig) (d d' : δ) : Prop :=
  device ≠ [] ∧ ∃ speed, toPosixBaud config.baudRate = some speed ∧
    5 ≤ config.dataBits ∧ config.dataBits ≤ 8 ∧
    ∃ found tio asked, (port.openFile (pathOf device) d).Gives () found ∧
      (port.getAttributes (port.clearNonblock found).after).Gives tio asked ∧
      (port.setAttributes (tio.configure speed config) asked).Gives () d'

/-- The modem takes a command, and OK is heard of it before three seconds are over. -/
def Confirms (dev : Device δ) (command : Bytes) (d d' : δ) : Prop :=
  ∃ accepted written, (dev.write command d).Gives accepted written ∧ HearsOk dev 3000 written d'

/-- The three commands that have to succeed. -/
def Initializes (dev : Device δ) (d : δ) : Prop :=
  ∃ attentive quiet formatted, Confirms dev (ascii "AT\r") d attentive ∧
    Confirms dev (ascii "ATE0\r") attentive quiet ∧
    Confirms dev (ascii "AT+CMGF=0\r") quiet formatted

/-- The port opens, and the modem confirms what it is asked. -/
def Responds (port : Port δ) (device : Bytes) (config : SerialConfig) (d : δ) : Prop :=
  ∃ d', Opens port device config d d' ∧ Initializes port.toDevice d'

/-- A failed call leaves a closed port closed, so that a later one succeeds where everything
responds, and no call closes an open port. -/
structure LeavesAsItWas (port : Port δ) (device : Bytes) (config : SerialConfig) (m : Modem δ) :
    Prop where
  closed : m.isOpen = false → (openAndInit port device config m).1 ≠ none →
    (openAndInit port device config m).2.isOpen = false
  retried : m.isOpen = false → (openAndInit port device config m).1 ≠ none →
    ∀ (port' : Port δ) (device' : Bytes) (config' : SerialConfig) (later : Modem δ),
      later.isOpen = (openAndInit port device config m).2.isOpen →
      Responds port' device' config' later.device →
      (openAndInit port' device' config' later).1 = none
  stillOpen : m.isOpen = true → (openAndInit port device config m).2.isOpen = true

variable {port : Port δ} {device : Bytes} {config : SerialConfig} {m : Modem δ} {d' : δ}

/-! ### The port -/

theorem osCall_of_gives {α : Type} {call : δ → Reaction α δ} {value : α}
    (h : (call m.device).Gives value d') :
    ∃ m', osCall call m = (.ok value, m') ∧ m'.device = d' ∧ m'.isOpen = m.isOpen :=
  ⟨_, Prod.ext h.1 rfl, h.2, rfl⟩

theorem osCall_cases {α : Type} (call : δ → Reaction α δ) (m : Modem δ) :
    (∃ errno m', osCall call m = (.error errno, m') ∧ m'.isOpen = m.isOpen) ∨
      ∃ value m', osCall call m = (.ok value, m') ∧ m'.isOpen = m.isOpen ∧
        (call m.device).Gives value m'.device := by
  cases hresult : (call m.device).result with
  | error errno => exact Or.inl ⟨errno, _, Prod.ext hresult rfl, rfl⟩
  | ok value => exact Or.inr ⟨value, _, Prod.ext hresult rfl, rfl, hresult, rfl⟩

/-- Where the operating system opens the port, `open` does. -/
theorem openPort_of_opens (hclosed : m.isOpen = false) (h : Opens port device config m.device d') :
    ∃ m', openPort port device config m = (none, m') ∧ m'.device = d' ∧ m'.isOpen = true := by
  obtain ⟨hdevice, speed, hspeed, hlow, hhigh, found, tio, asked, hfile, hattributes, hset⟩ := h
  have hbits : ¬ (config.dataBits < 5 ∨ config.dataBits > 8) :=
    not_or.mpr ⟨UInt8.not_lt.mpr hlow, UInt8.not_lt.mpr hhigh⟩
  obtain ⟨m₁, hopened, rfl, -⟩ := osCall_of_gives hfile
  obtain ⟨m₂, hgiven, rfl, -⟩ :
      ∃ m', osCall port.getAttributes (osCall port.clearNonblock m₁).2 = (.ok tio, m') ∧
        m'.device = asked ∧ m'.isOpen = (osCall port.clearNonblock m₁).2.isOpen :=
    osCall_of_gives hattributes
  obtain ⟨m₃, htaken, rfl, -⟩ := osCall_of_gives hset
  refine ⟨{ m₃ with isOpen := true }, ?_, rfl, rfl⟩
  rw [openPort, hclosed, if_neg Bool.false_ne_true, if_neg hdevice, hspeed]
  simp only [if_neg hbits, hopened, hgiven, htaken]

/-- `open` fails with the port closed, or the operating system opens the port. -/
theorem openPort_cases (port : Port δ) (device : Bytes) (config : SerialConfig)
    (hclosed : m.isOpen = false) :
    (∃ ec m', openPort port device config m = (some ec, m') ∧ m'.isOpen = false) ∨
      ∃ m', openPort port device config m = (none, m') ∧ m'.isOpen = true ∧
        Opens port device config m.device m'.device := by
  rw [openPort, hclosed, if_neg Bool.false_ne_true]
  by_cases hdevice : device = []
  · rw [if_pos hdevice]
    exact Or.inl ⟨_, _, rfl, hclosed⟩
  rw [if_neg hdevice]
  cases hspeed : toPosixBaud config.baudRate with
  | none => exact Or.inl ⟨_, _, rfl, hclosed⟩
  | some speed =>
      by_cases hbits : config.dataBits < 5 ∨ config.dataBits > 8
      · simp only [if_pos hbits]
        exact Or.inl ⟨_, _, rfl, hclosed⟩
      simp only [if_neg hbits]
      obtain ⟨hlow, hhigh⟩ := not_or.mp hbits
      rcases osCall_cases (port.openFile (pathOf device)) m with
        ⟨errno, found, hfile, hfound⟩ | ⟨_, found, hfile, hfound, hopened⟩
      · rw [hfile]
        exact Or.inl ⟨_, _, rfl, hfound.trans hclosed⟩
      rw [hfile]
      rcases osCall_cases port.getAttributes (osCall port.clearNonblock found).2 with
        ⟨errno, asked, hattributes, hasked⟩ | ⟨tio, asked, hattributes, hasked, hgiven⟩
      · simp only [hattributes]
        exact Or.inl ⟨_, _, rfl, hasked.trans (hfound.trans hclosed)⟩
      rcases osCall_cases (port.setAttributes (tio.configure speed config)) asked with
        ⟨errno, taken, hset, htaken⟩ | ⟨_, taken, hset, htaken, hconfigured⟩
      · simp only [hattributes, hset]
        exact Or.inl ⟨_, _, rfl, htaken.trans (hasked.trans (hfound.trans hclosed))⟩
      · simp only [hattributes, hset]
        exact Or.inr ⟨_, rfl, rfl, hdevice, speed, hspeed, UInt8.not_lt.mp hlow,
          UInt8.not_lt.mp hhigh, found.device, tio, asked.device, hopened, hgiven, hconfigured⟩

theorem openPort_of_isOpen (hopen : m.isOpen = true) :
    openPort port device config m = (some (.errc .alreadyOpen), m) := by
  rw [openPort, if_pos hopen]

/-! ### The initialization -/

variable {dev : Device δ}

variable (dev) in
/-- A command of the initialization succeeds exactly where the modem confirms it. -/
theorem exists_initCommand {command : Bytes} (hcommand : EndsCommand command)
    (hopen : m.isOpen = true) :
    ∃ ec m', initCommand dev command 3000 m = (ec, m') ∧ m'.isOpen = true ∧
      ∀ d', Confirms dev command m.device d' ↔ ec = none ∧ m'.device = d' := by
  have hne : command ≠ [] := by
    rintro rfl
    rcases hcommand with h | h <;> cases h
  refine ⟨(initCommand dev command 3000 m).1, (initCommand dev command 3000 m).2, rfl,
    (run_initCommand dev hcommand 3000 m).isOpen.trans hopen, fun d' => ?_⟩
  cases hresult : (dev.write command m.device).result with
  | error errno =>
      have hwrite : (writeString dev command m).1 = some (.system errno) := by
        rw [writeString, write, hopen, Bool.not_true, if_neg Bool.false_ne_true, if_neg hne]
        exact congrArg systemError hresult
      rw [initCommand]
      simp only [hwrite, Option.isSome_some, if_true]
      constructor
      · rintro ⟨accepted, written, ⟨hok, -⟩, -⟩
        rw [hresult] at hok
        cases hok
      · rintro ⟨hec, -⟩
        cases hec
  | ok accepted =>
      have hwritten := write_of_result hopen hne hresult
      have hec : (writeString dev command m).1 = none := congrArg Prod.fst hwritten
      have hdevice : ((writeString dev command m).2.record .fresh).device =
          (dev.write command m.device).after :=
        congrArg Modem.device (write_of_ok (congrArg Prod.fst hwritten) hne)
      have hopened : ((writeString dev command m).2.record .fresh).isOpen = true :=
        (isOpen_write dev command m).trans hopen
      have hheard := waitUntilOk_iff dev 3000 hopened d'
      rw [hdevice] at hheard
      rw [initCommand]
      simp only [hec, Option.isSome_none, Bool.false_eq_true, if_false]
      refine Iff.trans ⟨?_, fun h => ⟨accepted, _, ⟨hresult, rfl⟩, h⟩⟩ hheard
      rintro ⟨_, written, ⟨-, rfl⟩, h⟩
      exact h

variable (dev) in
/-- **The initialization succeeds exactly where the modem confirms its three commands.** -/
theorem initializeModem_iff (hopen : m.isOpen = true) :
    (initializeModem dev m).1 = none ↔ Initializes dev m.device := by
  obtain ⟨ec, attentive, hat, hopen₁, hconfirms⟩ :=
    exists_initCommand dev (endsCommand_append (ascii "AT")) hopen
  obtain ⟨ec', quiet, hecho, hopen₂, hconfirms'⟩ :=
    exists_initCommand dev (endsCommand_append (ascii "ATE0")) hopen₁
  obtain ⟨ec'', formatted, hformat, -, hconfirms''⟩ :=
    exists_initCommand dev (endsCommand_append (ascii "AT+CMGF=0")) hopen₂
  have heq : (initializeModem dev m).1 =
      if ec.isSome then ec else if ec'.isSome then ec' else ec'' := by
    have hat : initCommand dev (ascii "AT\r") 3000 m = (ec, attentive) := hat
    have hecho : initCommand dev (ascii "ATE0\r") 3000 attentive = (ec', quiet) := hecho
    have hformat : initCommand dev (ascii "AT+CMGF=0\r") 3000 quiet = (ec'', formatted) := hformat
    rw [initializeModem, hopen, Bool.not_true, if_neg Bool.false_ne_true]
    simp only [hat, hecho, hformat]
    split_ifs with hec hec' hec''
    · rfl
    · rfl
    · rfl
    · exact (Option.not_isSome_iff_eq_none.mp hec'').symm
  rw [heq]
  constructor
  · intro h
    cases ec with
    | some ec => cases h
    | none =>
        cases ec' with
        | some ec => cases h
        | none =>
            obtain rfl : ec'' = none := h
            exact ⟨_, _, _, (hconfirms _).mpr ⟨rfl, rfl⟩, (hconfirms' _).mpr ⟨rfl, rfl⟩,
              (hconfirms'' _).mpr ⟨rfl, rfl⟩⟩
  · rintro ⟨d₁, d₂, d₃, h₁, h₂, h₃⟩
    obtain ⟨rfl, rfl⟩ := (hconfirms d₁).mp h₁
    obtain ⟨rfl, rfl⟩ := (hconfirms' d₂).mp h₂
    obtain ⟨rfl, -⟩ := (hconfirms'' d₃).mp h₃
    rfl

/-! ### The initialization fails with the port open -/

theorem openAndInit_of_isOpen (port : Port δ) (device : Bytes) (config : SerialConfig)
    (hopen : m.isOpen = true) :
    openAndInit port device config m = (some (.errc .alreadyOpen), m) := by
  rw [openAndInit, openPort_of_isOpen hopen]
  rfl

theorem openAndInit_of_opens (hclosed : m.isOpen = false)
    (h : Opens port device config m.device d') :
    ∃ m', openAndInit port device config m = initializeModem port.toDevice m' ∧ m'.device = d' ∧
      m'.isOpen = true := by
  obtain ⟨m', hopen, hdevice, hopened⟩ := openPort_of_opens hclosed h
  refine ⟨m', ?_, hdevice, hopened⟩
  rw [openAndInit, hopen]
  rfl

/-- A port and a modem that respond are opened and initialized. -/
theorem openAndInit_of_responds (hclosed : m.isOpen = false)
    (h : Responds port device config m.device) : (openAndInit port device config m).1 = none := by
  obtain ⟨d', hopens, hinitializes⟩ := h
  obtain ⟨m', heq, rfl, hopened⟩ := openAndInit_of_opens hclosed hopens
  rw [heq]
  exact (initializeModem_iff port.toDevice hopened).mpr hinitializes

theorem isOpen_openAndInit_of_opens (hclosed : m.isOpen = false)
    (h : Opens port device config m.device d') :
    (openAndInit port device config m).2.isOpen = true := by
  obtain ⟨m', heq, -, hopened⟩ := openAndInit_of_opens hclosed h
  rw [heq]
  exact (run_initializeModem port.toDevice m').isOpen.trans hopened

theorem openAndInit_ne_none (hclosed : m.isOpen = false)
    (hopens : Opens port device config m.device d') (hfails : ¬ Initializes port.toDevice d') :
    (openAndInit port device config m).1 ≠ none := by
  obtain ⟨m', heq, rfl, hopened⟩ := openAndInit_of_opens hclosed hopens
  rw [heq]
  exact mt (initializeModem_iff port.toDevice hopened).mp hfails

/-- **The leak is for good.** After a failed initialization, whatever else is done with the modem,
`ct_modem_open` finds the port open. -/
theorem openModem_of_not_initializes (hclosed : m.isOpen = false)
    (hopens : Opens port device config m.device d') (hfails : ¬ Initializes port.toDevice d')
    {popped : List Message} {later : Modem δ}
    (hrun : Run port.toDevice (openAndInit port device config m).2 popped later) {name : Bytes}
    (hname : name ≠ []) (baudRate : UInt32) :
    (openAndInit port device config m).1 ≠ none ∧
      CApi.openModem port (some name) baudRate later = ({ status := .alreadyOpen }, later) := by
  refine ⟨openAndInit_ne_none hclosed hopens hfails, ?_⟩
  have hopen : later.isOpen = true :=
    hrun.isOpen.trans (isOpen_openAndInit_of_opens hclosed hopens)
  rw [CApi.openModem, Option.getD_some, if_neg hname]
  simp only [openAndInit_of_isOpen port name _ hopen]
  rfl

theorem leavesAsItWas_of_isOpen (hopen : m.isOpen = true) : LeavesAsItWas port device config m := by
  have hnot : m.isOpen ≠ false := by
    rw [hopen]
    decide
  refine ⟨fun hclosed => absurd hclosed hnot, fun hclosed => absurd hclosed hnot, fun _ => ?_⟩
  rw [openAndInit_of_isOpen port device config hopen]
  exact hopen

theorem leavesAsItWas_of_success (hclosed : m.isOpen = false)
    (hok : (openAndInit port device config m).1 = none) : LeavesAsItWas port device config m := by
  refine ⟨fun _ hec => absurd hok hec, fun _ hec => absurd hok hec, fun hopen => ?_⟩
  rw [hclosed] at hopen
  cases hopen

theorem leavesAsItWas_of_closed (hclosed : m.isOpen = false)
    (hafter : (openAndInit port device config m).2.isOpen = false) :
    LeavesAsItWas port device config m := by
  refine ⟨fun _ _ => hafter, ?_, fun hopen => ?_⟩
  · intro _ _ port' device' config' later hlater hresponds
    exact openAndInit_of_responds (hlater.trans hafter) hresponds
  · rw [hclosed] at hopen
    cases hopen

/-- **When a failed open leaves no trace**: where the port was open already, where the operating
system does not open it, and where the modem confirms the whole initialization. -/
theorem leavesAsItWas_iff (port : Port δ) (device : Bytes) (config : SerialConfig) (m : Modem δ) :
    LeavesAsItWas port device config m ↔
      m.isOpen = true ∨
        ∀ d', Opens port device config m.device d' → Initializes port.toDevice d' := by
  cases hm : m.isOpen with
  | true => exact iff_of_true (leavesAsItWas_of_isOpen hm) (Or.inl rfl)
  | false =>
      constructor
      · intro h
        right
        intro d' hopens
        by_contra hfails
        have hec := openAndInit_ne_none hm hopens hfails
        have hclosed := h.closed hm hec
        rw [isOpen_openAndInit_of_opens hm hopens] at hclosed
        cases hclosed
      · intro hcondition
        have hinitializes := hcondition.resolve_left Bool.false_ne_true
        rcases openPort_cases port device config hm with
          ⟨ec, m', hfailed, hclosed⟩ | ⟨m', -, -, hopens⟩
        · apply leavesAsItWas_of_closed hm
          rw [openAndInit, hfailed]
          exact hclosed
        · apply leavesAsItWas_of_success hm
          exact openAndInit_of_responds hm ⟨m'.device, hopens, hinitializes _ hopens⟩

/-! ### A modem that is switched off -/

/-- The port opens and takes every octet. Nothing is ever there to read. -/
def silentPort : Port Unit where
  read := fun _ _ => ⟨0, .ok [], ()⟩
  write := fun data _ => ⟨0, .ok data.length, ()⟩
  sleep := fun _ _ => (0, ())
  openFile := fun _ _ => ⟨0, .ok (), ()⟩
  clearNonblock := fun _ => ⟨0, .ok (), ()⟩
  getAttributes := fun _ => ⟨0, .ok {}, ()⟩
  setAttributes := fun _ _ => ⟨0, .ok (), ()⟩
  closeFile := fun _ => ⟨0, .ok (), ()⟩

def neverOpened : Modem Unit := ⟨(), false, 0, [], []⟩

theorem text_listen_silentPort (hearing : Hearing Unit) :
    (hearing.listen silentPort.toDevice).text = hearing.text := List.append_nil _

theorem text_before_silentPort (hearing : Hearing Unit) (k : Nat) :
    (hearing.before silentPort.toDevice k).text = hearing.text := by
  induction k generalizing hearing with
  | zero => rfl
  | succ k ih => exact (ih _).trans (text_listen_silentPort hearing)

theorem not_confirms_silentPort (command : Bytes) (d d' : Unit) :
    ¬ Confirms silentPort.toDevice command d d' := by
  rintro ⟨accepted, written, -, k, -, hok, -⟩
  have hnothing : verdictOn [] = .wait := by decide +kernel
  have hverdict : Hearing.verdict silentPort.toDevice ⟨[], written, 0⟩ k = .wait := by
    rw [Hearing.verdict, text_listen_silentPort, text_before_silentPort]
    exact hnothing
  rw [hverdict] at hok
  cases hok

theorem not_leavesAsItWas_of_silence :
    ¬ LeavesAsItWas silentPort (ascii "/dev/ttyUSB0") {} neverOpened := by
  intro h
  have hopens : Opens silentPort (ascii "/dev/ttyUSB0") {} neverOpened.device () :=
    ⟨by decide, .b57600, by decide, by decide, by decide, (), {}, (), ⟨rfl, rfl⟩, ⟨rfl, rfl⟩,
      ⟨rfl, rfl⟩⟩
  have hfails : ¬ Initializes silentPort.toDevice () := by
    rintro ⟨attentive, quiet, formatted, hat, -⟩
    exact not_confirms_silentPort _ _ _ hat
  have hclosed := h.closed rfl (openAndInit_ne_none rfl hopens hfails)
  rw [isOpen_openAndInit_of_opens rfl hopens] at hclosed
  cases hclosed

end Modem

end CometTextel
