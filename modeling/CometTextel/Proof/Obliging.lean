import CometTextel.Proof.Answered
import CometTextel.Proof.Dialogue
import CometTextel.Proof.LengthOctets

/-!
# A modem that obliges

Every message that can be encoded is sent by some run. The modem of that run answers every read at
once, a prompt to a command and an OK to the data, however little of a write it takes.
-/

namespace CometTextel

namespace Modem

/-- A device that counts the writes. It takes of each as much as `counts` allows, and gives every
read what `answers` has after so many writes. -/
def obliging (counts : Nat → Nat) (answers : Nat → Bytes) : Device Nat where
  read := fun _ count => ⟨0, .ok (incoming (answers count)), count⟩
  write := fun data count => ⟨0, .ok (min (counts count) data.length), count + 1⟩
  sleep := fun _ count => (0, count)

/-- A prompt after a command, an OK after the data. -/
def promptThenOk (count : Nat) : Bytes := if count % 2 = 1 then ascii ">" else ascii "OK\r\n"

/-- An open port before the first write. -/
def idle : Modem Nat := ⟨0, true, 0, [], []⟩

variable (counts : Nat → Nat) (answers : Nat → Bytes) {m start : Modem Nat}

theorem write_obliging {data : Bytes} (hdata : data ≠ []) (hopen : m.isOpen = true) :
    ∃ accepted m', write (obliging counts answers) data m = ((none, accepted), m') ∧
      m'.isOpen = true ∧ m'.device = m.device + 1 := by
  have hresult : (write (obliging counts answers) data m).1 = (none, min (counts m.device) data.length) :=
    write_of_result hopen hdata rfl
  have hmoved := write_of_ok (congrArg Prod.fst hresult) hdata
  exact ⟨_, _, Prod.ext hresult rfl, (isOpen_write _ data m).trans hopen,
    congrArg Modem.device hmoved⟩

variable {counts answers} in
theorem Filling.device_obliging {received : List Incoming} {buffer : Bytes}
    (h : Filling (obliging counts answers) start received buffer m) : m.device = start.device := by
  induction h with
  | empty => rfl
  | slept duration h ih => exact ih
  | @read received buffer m maxBytes h ih =>
      cases read_cases (obliging counts answers) maxBytes m with
      | inl hsame => rw [hsame.1, ih]
      | inr hread =>
          rw [hread.2]
          exact ih
  | demuxed h ih => exact ih

theorem expectPrompt_obliging (hopen : m.isOpen = true) (hanswer : answers m.device = ascii ">") :
    ∃ m', expectPrompt (obliging counts answers) 5000 m = (none, m') ∧
      m'.isOpen = true ∧ m'.device = m.device := by
  obtain ⟨buffer, ⟨received, hfilling, -⟩, -⟩ := expectPrompt_eq (obliging counts answers) 5000 m
  have hresult : ((obliging counts answers).read 128 m.device).result = .ok (incoming (ascii ">")) :=
    congrArg (Except.ok ∘ incoming) hanswer
  exact ⟨_, Prod.ext (expectPrompt_of_result hopen hresult) rfl, hfilling.isOpen.trans hopen,
    hfilling.device_obliging⟩

theorem waitUntilOk_obliging (hopen : m.isOpen = true) (hanswer : answers m.device = ascii "OK\r\n")
    {timeout : Int} (htimeout : 0 < timeout) :
    ∃ buffer m', waitUntilOk (obliging counts answers) [] timeout 50 m = (none, buffer, m') ∧
      m'.isOpen = true ∧ m'.device = m.device := by
  obtain ⟨buffer, m', ⟨received, hfilling, -⟩, hwait, -⟩ :=
    waitUntilOk_eq (obliging counts answers) timeout 50 m
  have hresult : ((obliging counts answers).read 256 m.device).result =
      .ok (incoming (ascii "OK\r\n")) := congrArg (Except.ok ∘ incoming) hanswer
  exact ⟨_, _, Prod.ext (waitUntilOk_of_result hopen hresult htimeout) hwait,
    hfilling.isOpen.trans hopen, hfilling.device_obliging⟩

/-! ### One PDU and all of them -/

theorem cmgsOf_ne_nil (pduHex : Bytes) : cmgsOf pduHex ≠ [] := by
  simp [cmgsOf, cmgsCommand, ascii]

theorem promptThenOk_odd {count : Nat} (hodd : count % 2 = 1) : promptThenOk count = ascii ">" :=
  if_pos hodd

theorem promptThenOk_even {count : Nat} (heven : count % 2 = 0) :
    promptThenOk count = ascii "OK\r\n" :=
  if_neg (by omega)

theorem sendEncodedPdu_obliging (smscLength : UInt8) (rest : Bytes) {timeout : Int}
    (htimeout : 0 < timeout) (hopen : m.isOpen = true) (heven : m.device % 2 = 0) :
    ∃ accepted m', sendEncodedPdu (obliging counts promptThenOk) (bytesToHex (smscLength :: rest))
        timeout m = ((none, accepted), m') ∧ m'.isOpen = true ∧ m'.device % 2 = 0 := by
  have hfirst : hexToBytes ((bytesToHex (smscLength :: rest) ++ [0x1A]).take 2) = .ok [smscLength] := by
    rw [bytesToHex_cons]
    exact hexToBytes_bytesToHex [smscLength]
  generalize bytesToHex (smscLength :: rest) = pduHex at hfirst ⊢
  have hcommand : cmgsCommand pduHex smscLength = cmgsOf pduHex := by
    rw [cmgsOf, hfirst]
    rfl
  obtain ⟨_, asked, hwrite, hopen, hasked⟩ :=
    write_obliging counts promptThenOk (cmgsOf_ne_nil pduHex) hopen
  obtain ⟨prompted, hprompt, hopen, hprompted⟩ :=
    expectPrompt_obliging counts promptThenOk hopen (promptThenOk_odd (by omega))
  obtain ⟨accepted, sent, hdata, hopen, hsent⟩ :=
    write_obliging counts promptThenOk (show pduHex ++ [0x1A] ≠ [] by simp) hopen
  have heven : (sent.record .fresh).device % 2 = 0 := by
    show sent.device % 2 = 0
    omega
  obtain ⟨_, m', hwait, hopen, hdevice⟩ := waitUntilOk_obliging counts promptThenOk
    (m := sent.record .fresh) hopen (promptThenOk_even heven) htimeout
  refine ⟨accepted, m', ?_, hopen, hdevice ▸ heven⟩
  rw [sendEncodedPdu]
  simp only [hfirst, Outcome.ok, List.headD_cons, hcommand, writeString, hwrite, hprompt, hdata, hwait,
    Option.isSome_none, Bool.false_eq_true, if_false]

theorem sendPdus_obliging {timeout : Int} (htimeout : 0 < timeout) {pdus : List Bytes}
    (hpdus : ∀ pduHex ∈ pdus, ∃ smscLength rest, pduHex = bytesToHex (smscLength :: rest)) (total : Nat)
    (hopen : m.isOpen = true) (heven : m.device % 2 = 0) :
    (sendPdus (obliging counts promptThenOk) timeout pdus total m).1.1 = none := by
  induction pdus generalizing total m with
  | nil => rfl
  | cons pduHex pdus ih =>
      obtain ⟨hfirst, hlater⟩ := List.forall_mem_cons.mp hpdus
      obtain ⟨smscLength, rest, rfl⟩ := hfirst
      obtain ⟨accepted, m', hsent, hopen, heven⟩ :=
        sendEncodedPdu_obliging counts smscLength rest htimeout hopen heven
      rw [sendPdus]
      simp only [hsent, Option.isSome_none, Bool.false_eq_true, if_false]
      exact ih hlater (total + accepted) hopen heven

/-- Every PDU of a message begins with its service centre. -/
theorem exists_tpdu {message : Message} {pduHex : Bytes}
    (hmem : pduHex ∈ (encodeSegments message).out) :
    ∃ tpdu, pduHex = bytesToHex
      (UInt8.ofNat (centerOctets message).length :: (centerOctets message ++ tpdu)) := by
  have hsegment : ∃ piece concat, pduHex = segmentPdu message piece concat := by
    by_cases hok : (encodeSegments message).ec = none
    · obtain ⟨hdest, hconvert⟩ := encodeSegments_payload hok
      rw [encodeSegments_eq_cut hdest (Outcome.eq_ok_of_ec hconvert)] at hmem
      split_ifs at hmem with hshort hmany
      · exact ⟨_, _, List.mem_singleton.mp hmem⟩
      · cases hmem
      · obtain ⟨k, hk, rfl⟩ := List.mem_mapIdx.mp hmem
        exact ⟨_, _, rfl⟩
    · rw [encodeSegments_out_of_fail message hok] at hmem
      cases hmem
  obtain ⟨piece, concat, rfl⟩ := hsegment
  exact ⟨_, segmentPdu_eq message piece concat⟩

/-- **Every message that can be encoded is sent** by some run. -/
theorem sendMessage_obliging {message : Message} (hok : (encodeSegments message).ec = none)
    {timeout : Int} (htimeout : 0 < timeout) :
    (sendMessage (obliging counts promptThenOk) message timeout idle).1.1 = none := by
  have hpdus : ∀ pduHex ∈ (encodeSegments message).out,
      ∃ smscLength rest, pduHex = bytesToHex (smscLength :: rest) := by
    intro pduHex hmem
    obtain ⟨tpdu, hpdu⟩ := exists_tpdu hmem
    exact ⟨_, _, hpdu⟩
  rw [sendMessage]
  simp only [show idle.isOpen = true from rfl, Bool.not_true, Bool.false_eq_true, if_false, hok]
  exact sendPdus_obliging counts htimeout hpdus 0 rfl rfl

/-! ### One command -/

theorem commandLine_ne_nil (command : Bytes) : commandLine command ≠ [] := by
  rw [commandLine]
  split_ifs with hends
  · rintro rfl
    exact absurd hends (by decide)
  · exact List.append_ne_nil_of_right_ne_nil _ (by decide)

theorem runAtCommand_obliging (command response : Bytes) {timeout : Int} (htimeout : 0 < timeout) :
    (runAtCommand (obliging counts fun _ => ascii "OK\r\n") command response timeout idle).1 =
      none := by
  obtain ⟨accepted, m', hwrite, hopen, -⟩ := write_obliging counts (fun _ => ascii "OK\r\n")
    (m := idle.record .fresh) (commandLine_ne_nil command) rfl
  obtain ⟨buffer, m'', hwait, -⟩ :=
    waitUntilOk_obliging counts (fun _ => ascii "OK\r\n") hopen rfl htimeout
  rw [runAtCommand]
  simp only [show idle.isOpen = true from rfl, Bool.not_true, Bool.false_eq_true, if_false, writeString,
    hwrite, hwait, Option.isSome_none]

end Modem

end CometTextel
