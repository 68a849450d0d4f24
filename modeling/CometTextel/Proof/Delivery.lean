import CometTextel.Proof.CSubmit
import CometTextel.Proof.Inbox
import CometTextel.Proof.WholeAnswers

/-!
# From the messages that were encoded to the structs of a client

The segments of several messages lie in the storage of a modem. `ct_modem_list` reads the listing in
pieces, with unsolicited results in between, and puts each message into one struct.
-/

namespace CometTextel

namespace Modem

variable {δ : Type} {dev : Device δ}

theorem Told.mono {answer : Answer} {whole whole' : Returned → Prop} {m : Modem δ}
    {result : Returned × Modem δ} (h : Told answer whole m result)
    (himp : ∀ returned, whole returned → whole' returned) : Told answer whole' m result := by
  obtain ⟨events, hlog, htold⟩ := h
  refine ⟨events, hlog, fun hread => ?_⟩
  obtain ⟨hok, hrejected⟩ := htold hread
  exact ⟨fun h => ⟨(hok h).1, himp _ (hok h).2⟩, hrejected⟩

end Modem

end CometTextel
