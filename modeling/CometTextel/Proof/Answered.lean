import CometTextel.Proof.Polls

/-!
# Waits that are answered at once

Where the first read of a wait brings the answer, the wait ends with it, whatever is read later.
-/

namespace CometTextel

namespace Modem

variable {δ : Type} {dev : Device δ} {m : Modem δ}

/-- A text as it comes from a device. -/
def incoming (text : Bytes) : List Incoming := text.map fun octet => ⟨none, octet⟩

theorem octets_incoming (text : Bytes) : octets (incoming text) = text := by
  rw [octets, incoming, List.map_map]
  exact List.map_id text

theorem write_of_result {data : Bytes} {accepted : Nat} (hopen : m.isOpen = true) (hdata : data ≠ [])
    (hresult : (dev.write data m.device).result = .ok accepted) :
    (write dev data m).1 = (none, accepted) := by
  rw [write, hopen, Bool.not_true, if_neg Bool.false_ne_true, if_neg hdata]
  simp only [hresult]
  rfl

theorem readString_of_result {maxBytes : Nat} {text : Bytes} (hopen : m.isOpen = true)
    (hmax : maxBytes ≠ 0) (hresult : (dev.read maxBytes m.device).result = .ok (incoming text)) :
    (readString dev maxBytes m).1 = (none, text) := by
  rw [readString, read, hopen, Bool.not_true, if_neg Bool.false_ne_true, if_neg hmax]
  simp only [hresult, Except.toOption, Option.getD_some, octets_incoming]
  rfl

/-! ### A prompt -/

theorem round_promptBody_of_result (hopen : m.isOpen = true)
    (hresult : (dev.read 128 m.device).result = .ok (incoming (ascii ">"))) :
    ∃ m', (promptBody dev).round ([], m) = .inl (.ok (ascii ">"), m') := by
  have hdemux : demuxUrcs (ascii ">") = (ascii ">", []) := by decide +kernel
  have htoken : containsToken (ascii ">") (ascii ">") = true := by decide +kernel
  have hread : (readString dev 128 m).1 = (none, ascii ">") :=
    readString_of_result hopen (by decide) hresult
  refine ⟨(demuxIntoQueue (ascii ">") (readString dev 128 m).2).2, ?_⟩
  simp only [promptBody, hread, if_neg (show ascii ">" ≠ [] by decide), List.nil_append,
    demuxIntoQueue, hdemux, htoken, true_or, if_true]

theorem expectPrompt_of_result (hopen : m.isOpen = true)
    (hresult : (dev.read 128 m.device).result = .ok (incoming (ascii ">"))) :
    (expectPrompt dev 5000 m).1 = none := by
  have hdemux : demuxUrcs (ascii ">") = (ascii ">", []) := by decide +kernel
  have hclass : classifyResponse (ascii ">") ≠ .error := by decide +kernel
  obtain ⟨m', hround⟩ : ∃ m', (promptBody dev).round ([], m.record .fresh) =
      .inl (.ok (ascii ">"), m') := round_promptBody_of_result hopen hresult
  have htime : (promptBody dev).clock ([], m.record .fresh) < (m.record .fresh).clock + 5000 :=
    Int.lt_add_of_pos_right _ (by decide)
  rw [expectPrompt, Deadline.Body.until_of_inl htime hround]
  simp only [settlePrompt, demuxIntoQueue, hdemux, if_neg hclass]
  rw [if_neg (by decide)]

/-! ### A final result -/

theorem hearsOk_of_result {d : δ}
    (hresult : (dev.read 256 d).result = .ok (incoming (ascii "OK\r\n"))) (timeout : Nat) :
    HearsOk dev timeout d (dev.read 256 d).after := by
  refine ⟨0, fun j hj => absurd hj (Nat.not_lt_zero j), ?_, rfl⟩
  have htext : (Hearing.listen dev ⟨[], d, 0⟩).text = ascii "OK\r\n" := by
    simp only [Hearing.listen, hresult, Except.toOption, Option.getD_some, List.nil_append,
      octets_incoming]
  have hok : verdictOn (ascii "OK\r\n") = .ok := by decide +kernel
  rw [Hearing.verdict, Hearing.before, htext, hok]

/-- A final OK that is there at the first read ends the wait with success. -/
theorem waitUntilOk_of_result (hopen : m.isOpen = true)
    (hresult : (dev.read 256 m.device).result = .ok (incoming (ascii "OK\r\n"))) {timeout : Int}
    (htimeout : 0 < timeout) : (waitUntilOk dev [] timeout 50 m).1 = none := by
  obtain ⟨timeout, rfl⟩ := Int.eq_ofNat_of_zero_le (Int.le_of_lt htimeout)
  exact ((waitUntilOk_iff dev timeout hopen _).mp (hearsOk_of_result hresult timeout)).1

end Modem

end CometTextel
