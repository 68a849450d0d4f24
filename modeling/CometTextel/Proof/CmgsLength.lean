import CometTextel.Proof.Decimal
import CometTextel.Proof.Obliging

/-!
# The length in `AT+CMGS`

The command counts the octets of a PDU behind the service centre. The length of the service centre
is an octet, and one more for the length octet itself is added in that octet: of the lengths that
the PDU can hold, only the last one, 255, wraps around.
-/

namespace CometTextel

namespace Modem

variable {δ : Type}

/-- The command announces the octets of the PDU that are behind its length octet and as many octets
as that one says. -/
def CommandCounts (command pduHex : Bytes) : Prop :=
  ∃ smscLength smsc tpdu, hexToBytes pduHex = .ok (smscLength :: (smsc ++ tpdu)) ∧
    smsc.length = smscLength.toNat ∧
    command = ascii "AT+CMGS=" ++ decimal tpdu.length ++ ascii "\r"

/-- What is written on the port, up to the end of the log. -/
def writes (m : Modem δ) : List Bytes := m.log.filterMap written

/-- Whenever `send_message` writes a PDU, the command in front of it has the right length. -/
def CmgsLengthRight (message : Message) : Prop :=
  ∀ (δ : Type) (dev : Device δ) (timeout : Int) (m : Modem δ) before command pduHex after,
    writes (sendMessage dev message timeout m).2 =
      writes m ++ (before ++ command :: (pduHex ++ [0x1A]) :: after) →
    CommandCounts command pduHex

/-! ### The number -/

theorem cmgsOf_bytesToHex (smscLength : UInt8) (rest : Bytes) :
    cmgsOf (bytesToHex (smscLength :: rest)) =
      ascii "AT+CMGS=" ++ decimal ((rest.length + 1 : Nat) - (smscLength + 1).toNat) ++
        ascii "\r" := by
  have hfirst : (bytesToHex (smscLength :: rest) ++ [0x1A]).take 2 = bytesToHex [smscLength] := by
    rw [bytesToHex_cons]
    rfl
  have hhalf : (bytesToHex (smscLength :: rest)).length / 2 = rest.length + 1 := by
    rw [length_bytesToHex, List.length_cons]
    omega
  rw [cmgsOf, hfirst, hexToBytes_bytesToHex, cmgsCommand, hhalf]
  rfl

theorem toNat_add_one {smscLength : UInt8} (h : smscLength.toNat ≠ 255) :
    (smscLength + 1).toNat = smscLength.toNat + 1 := by
  have hlt := smscLength.toNat_lt
  rw [UInt8.toNat_add, UInt8.toNat_one]
  omega

theorem commandCounts_of_ne {smscLength : UInt8} {smsc tpdu : Bytes}
    (hsmsc : smsc.length = smscLength.toNat) (hne : smscLength.toNat ≠ 255) :
    CommandCounts (cmgsOf (bytesToHex (smscLength :: (smsc ++ tpdu))))
      (bytesToHex (smscLength :: (smsc ++ tpdu))) := by
  refine ⟨smscLength, smsc, tpdu, hexToBytes_bytesToHex _, hsmsc, ?_⟩
  have hcount : ((smsc ++ tpdu).length + 1 : Nat) - ((smscLength + 1).toNat : Int) =
      tpdu.length := by
    rw [toNat_add_one hne, List.length_append, hsmsc]
    omega
  rw [cmgsOf_bytesToHex, hcount]

/-- With 255 octets of service centre the number is too large by 256. -/
theorem not_commandCounts {smsc tpdu : Bytes} (hsmsc : smsc.length = 255) :
    ¬ CommandCounts (cmgsOf (bytesToHex (255 :: (smsc ++ tpdu))))
      (bytesToHex (255 :: (smsc ++ tpdu))) := by
  rintro ⟨smscLength, smsc', tpdu', hpdu, hsmsc', hcommand⟩
  rw [hexToBytes_bytesToHex] at hpdu
  obtain ⟨rfl, hsame⟩ := List.cons.inj (congrArg Outcome.out hpdu)
  have hlength := congrArg List.length hsame
  have hcount : ((smsc ++ tpdu).length + 1 : Nat) - (((255 : UInt8) + 1).toNat : Int) =
      ((smsc ++ tpdu).length + 1 : Nat) := by
    rw [show ((255 : UInt8) + 1).toNat = 0 from rfl]
    omega
  rw [cmgsOf_bytesToHex, hcount] at hcommand
  have hnumber := List.append_cancel_left (List.append_cancel_right hcommand)
  have htpdu := decimal_inj hnumber
  rw [show (255 : UInt8).toNat = 255 from rfl] at hsmsc'
  rw [List.length_append, List.length_append] at hlength
  rw [List.length_append] at htpdu
  omega

/-! ### The PDUs of a message -/

theorem commandCounts_of_short {message : Message}
    (hshort : (normalizeAddressDigits message.serviceCenter).length ≤ 506) {pduHex : Bytes}
    (hmem : pduHex ∈ (encodeSegments message).out) : CommandCounts (cmgsOf pduHex) pduHex := by
  obtain ⟨tpdu, rfl⟩ := exists_tpdu hmem
  have hcenter : (centerOctets message).length < 255 := by
    rw [length_centerOctets]
    split <;> omega
  have htoNat : (UInt8.ofNat (centerOctets message).length).toNat = (centerOctets message).length :=
    Octet.toNat_ofNat_of_lt (by omega)
  exact commandCounts_of_ne htoNat.symm (by omega)

theorem not_commandCounts_of_long {message : Message}
    (hlong : 506 < (normalizeAddressDigits message.serviceCenter).length)
    (hfits : (normalizeAddressDigits message.serviceCenter).length ≤ 508) {pduHex : Bytes}
    (hmem : pduHex ∈ (encodeSegments message).out) : ¬ CommandCounts (cmgsOf pduHex) pduHex := by
  obtain ⟨tpdu, rfl⟩ := exists_tpdu hmem
  have hne : normalizeAddressDigits message.serviceCenter ≠ [] := by
    intro hnil
    rw [hnil] at hlong
    exact absurd hlong (by decide)
  have hcenter : (centerOctets message).length = 255 := by
    rw [length_centerOctets, if_neg hne]
    omega
  rw [hcenter]
  exact not_commandCounts hcenter

/-! ### What is written -/

theorem cmgsOf_ne (pduHex data : Bytes) : cmgsOf pduHex ≠ data ++ [0x1A] := by
  intro heq
  have hlast := congrArg List.getLast? heq
  rw [cmgsOf, cmgsCommand, show ascii "\r" = [0x0D] from rfl, List.getLast?_concat,
    List.getLast?_concat] at hlast
  exact absurd hlast (by decide)

/-- In the dialogue the command in front of a PDU is the one for it. -/
theorem command_of_dialogue {pdus before after : List Bytes} {command pduHex : Bytes}
    (h : before ++ command :: (pduHex ++ [0x1A]) :: after <+: dialogue pdus) :
    pduHex ∈ pdus ∧ command = cmgsOf pduHex := by
  induction pdus generalizing before with
  | nil => simp [dialogue] at h
  | cons first pdus ih =>
      have hdialogue : dialogue (first :: pdus) =
          cmgsOf first :: (first ++ [0x1A]) :: dialogue pdus := rfl
      rw [hdialogue] at h
      cases before with
      | nil =>
          obtain ⟨hcommand, hrest⟩ := List.cons_prefix_cons.mp h
          obtain ⟨hdata, -⟩ := List.cons_prefix_cons.mp hrest
          obtain rfl := List.append_cancel_right hdata
          exact ⟨List.mem_cons_self, hcommand⟩
      | cons other before =>
          obtain ⟨-, hrest⟩ := List.cons_prefix_cons.mp h
          cases before with
          | nil =>
              obtain ⟨-, hrest⟩ := List.cons_prefix_cons.mp hrest
              cases pdus with
              | nil => simp [dialogue] at hrest
              | cons second pdus =>
                  obtain ⟨hdata, -⟩ := List.cons_prefix_cons.mp hrest
                  exact absurd hdata.symm (cmgsOf_ne second pduHex)
          | cons another before =>
              obtain ⟨-, hrest⟩ := List.cons_prefix_cons.mp hrest
              obtain ⟨hmem, hcommand⟩ := ih hrest
              exact ⟨List.mem_cons_of_mem _ hmem, hcommand⟩

theorem writes_sendMessage (dev : Device δ) (message : Message) (timeout : Int) (m : Modem δ) :
    ∃ sent, writes (sendMessage dev message timeout m).2 = writes m ++ sent ∧
      sent <+: dialogue (encodeSegments message).out := by
  obtain ⟨events, htalk, -, -⟩ := exists_talk dev message timeout m
  refine ⟨events.filterMap written, ?_, htalk.follows.in_order⟩
  rw [writes, htalk.log, List.filterMap_append, writes]

/-- Every message that can be encoded is sent by some run, from its first PDU on. -/
theorem exists_first_writes {message : Message} (hok : (encodeSegments message).ec = none) :
    ∃ pduHex ∈ (encodeSegments message).out, ∃ after,
      writes (sendMessage (obliging (fun _ => 0) promptThenOk) message 1 idle).2 =
        cmgsOf pduHex :: (pduHex ++ [0x1A]) :: after := by
  obtain ⟨events, htalk, -, hsuccess⟩ :=
    exists_talk (obliging (fun _ => 0) promptThenOk) message 1 idle
  obtain ⟨hall, -⟩ := hsuccess.mp (sendMessage_obliging _ hok (by decide))
  obtain ⟨pduHex, pdus, hout⟩ := List.exists_cons_of_ne_nil (encodeSegments_out_ne_nil hok)
  refine ⟨pduHex, by rw [hout]; exact List.mem_cons_self, dialogue pdus, ?_⟩
  rw [writes, htalk.log]
  calc ([] ++ events).filterMap written
      = dialogue (encodeSegments message).out := hall
    _ = cmgsOf pduHex :: (pduHex ++ [0x1A]) :: dialogue pdus := by rw [hout]; rfl

theorem not_cmgsLengthRight {message : Message}
    (hlong : 506 < (normalizeAddressDigits message.serviceCenter).length)
    (hfits : (normalizeAddressDigits message.serviceCenter).length ≤ 508)
    (hsendable : ¬ Unsendable message) : ¬ CmgsLengthRight message := by
  intro hright
  have hok := (encodeSegments_ec_iff message).mpr hsendable
  obtain ⟨pduHex, hmem, after, hwrites⟩ := exists_first_writes hok
  exact not_commandCounts_of_long hlong hfits hmem
    (hright Nat _ 1 idle [] (cmgsOf pduHex) pduHex after hwrites)

/-- **When the length is right.** Among the service centres whose own length octet is right, those of
507 and 508 digits are the exception. -/
theorem cmgsLengthRight_iff {message : Message}
    (hfits : (normalizeAddressDigits message.serviceCenter).length ≤ 508) :
    CmgsLengthRight message ↔
      (normalizeAddressDigits message.serviceCenter).length ≤ 506 ∨ Unsendable message := by
  constructor
  · intro hright
    by_contra hneither
    obtain ⟨hlong, hsendable⟩ := not_or.mp hneither
    exact not_cmgsLengthRight (Nat.not_le.mp hlong) hfits hsendable hright
  · intro hcondition δ dev timeout m before command pduHex after hwrites
    obtain ⟨sent, hsent, hprefix⟩ := writes_sendMessage dev message timeout m
    rw [hsent] at hwrites
    rw [List.append_cancel_left hwrites] at hprefix
    obtain ⟨hmem, rfl⟩ := command_of_dialogue hprefix
    cases hcondition with
    | inl hshort => exact commandCounts_of_short hshort hmem
    | inr hunsendable =>
        have hfail : (encodeSegments message).ec ≠ none := fun hok =>
          (encodeSegments_ec_iff message).mp hok hunsendable
        rw [encodeSegments_out_of_fail message hfail] at hmem
        cases hmem

theorem cmgsLengthRight_greeting :
    CmgsLengthRight { serviceCenter := ascii "+886932000000", peerAddress := ascii "12" } :=
  (cmgsLengthRight_iff (by decide)).mpr (Or.inl (by decide))

/-- A service centre of 507 digits. -/
theorem not_cmgsLengthRight_of_507 :
    ¬ CmgsLengthRight
      { serviceCenter := List.replicate 507 '1'.toUInt8, peerAddress := ascii "12"
        coding := .eightBit, userData := ascii "Hi" } := by
  have hdigits : normalizeAddressDigits (List.replicate 507 '1'.toUInt8) =
      List.replicate 507 '1'.toUInt8 := List.filter_replicate_of_pos rfl
  apply not_cmgsLengthRight
  · rw [hdigits, List.length_replicate]
    decide
  · rw [hdigits, List.length_replicate]
    decide
  · have hpayload : payloadOf .eightBit (ascii "Hi") = .ok (ascii "Hi") := rfl
    exact not_unsendable_of_short (by decide) hpayload (by decide)

end Modem

end CometTextel
