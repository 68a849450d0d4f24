import CometTextel.Proof.Served

/-!
# Messages that are accepted in time

A modem that prompts for each PDU and accepts it. Where its answers come at some pace and in time, a
message that can be encoded is sent, whatever the reads leave of one answer for the next.
-/

namespace CometTextel

open ModemStream

/-! ### What a wait leaves unread -/

/-- The LF of the final line may be left, and nothing else where the modem sends nothing unasked. -/
theorem Answer.unread_of_ok {answer : Answer} {text unread : Bytes} (hfinal : answer.final = .ok)
    (hsilent : answer.after = []) (hclear : answer.Without okTokens)
    (hstream : text ++ unread = answer.stream) (hok : classifyResponse (demuxUrcs text).1 = .ok) :
    unread ∈ [[], ascii "\n"] := by
  have hline : answer.final.item.text = ascii "OK\r" ++ ascii "\n" := by rw [hfinal]; rfl
  have hall : answer.stream = answer.items.flatMap StreamItem.text ++ answer.final.item.text := by
    rw [Answer.stream, Answer.sent, hsilent, List.flatMap_append, List.flatMap_singleton]
  obtain ⟨before, after, part, h, ⟨rfl, rfl⟩ | ⟨mid, rfl, hafter⟩⟩ :=
    Answer.exists_arrived_of_ok hfinal hclear ⟨unread, hstream⟩ hok
  · rw [hall, hline, h.text_eq, List.append_assoc] at hstream
    rw [List.append_cancel_left (List.append_cancel_left hstream)]
    decide
  · rw [hsilent] at hafter
    obtain ⟨rfl, rfl⟩ := List.append_eq_nil_iff.mp hafter.symm
    obtain rfl : part = [] := by
      rcases h.part with hnil | ⟨item, hitem, -⟩
      · exact hnil
      · cases hitem
    rw [hall, h.text_eq, List.append_nil, List.flatMap_append, List.flatMap_singleton] at hstream
    rw [List.append_right_eq_self.mp hstream]
    decide

/-! ### Prompts -/

/-- A prompt, behind what the wait before may have left. -/
def prompts : List Bytes := [ascii "\r\n> ", ascii "\n\r\n> "]

/-- What has arrived of a prompt is no unsolicited result and no error, and ends the wait with its
sign. -/
structure PromptPart (text unread : Bytes) : Prop where
  demux : demuxUrcs text = (text, [])
  not_error : classifyResponse text ≠ .error
  sign_iff : containsToken text (ascii ">") = true ↔ '>'.toUInt8 ∈ text
  unread_of_sign : '>'.toUInt8 ∈ text → unread ∈ [[], ascii " "]
  sign_of_whole : unread = [] → '>'.toUInt8 ∈ text

theorem promptPart {prompt : Bytes} (hprompt : prompt ∈ prompts) {text unread : Bytes}
    (h : text ++ unread = prompt) : PromptPart text unread := by
  have hall : ∀ prompt ∈ prompts, ∀ text ∈ prompt.inits,
      demuxUrcs text = (text, []) ∧ classifyResponse text ≠ .error ∧
        (containsToken text (ascii ">") = true ↔ '>'.toUInt8 ∈ text) ∧
        ('>'.toUInt8 ∈ text → prompt.drop text.length ∈ [[], ascii " "]) ∧
        (prompt.drop text.length = [] → '>'.toUInt8 ∈ text) := by decide +kernel
  have hunread : prompt.drop text.length = unread := by rw [← h, List.drop_left]
  obtain ⟨hdemux, herror, hsign, hrest, hwhole⟩ :=
    hall prompt hprompt text ((List.mem_inits text prompt).mpr ⟨unread, h⟩)
  rw [hunread] at hrest hwhole
  exact ⟨hdemux, herror, hsign, hrest, hwhole⟩

namespace Modem

variable {δ : Type} {dev : Device δ} {left : δ → Bytes} {pace reading writing oversleep : Nat}
  {m m' : Modem δ}

/-- The limit on a round of a wait for a prompt. -/
def promptRoundLimit (reading oversleep : Nat) : Nat := reading + (20 + oversleep)

section Supplied

variable (hsupplies : dev.Supplies left pace)
include hsupplies

theorem readString_of_supplies (hopen : m.isOpen = true) {maxBytes : Nat} (hmax : maxBytes ≠ 0) :
    ∃ chunk m', readString dev maxBytes m = ((none, chunk), m') ∧ m'.isOpen = true ∧
      chunk ++ left m'.device = left m.device ∧
      (left m'.device).length ≤ (left m.device).length - min pace maxBytes := by
  obtain ⟨hleft, hpace⟩ := left_read hsupplies hopen hmax
  have hec : (read dev maxBytes m).1.1 = none := by
    obtain ⟨chunk, hresult, -⟩ := hsupplies.read maxBytes m.device
    rw [read, hopen]
    simp [hmax, hresult, systemError]
  have hlength := congrArg List.length hleft
  rw [List.length_append] at hlength
  exact ⟨_, (read dev maxBytes m).2, Prod.ext (Prod.ext hec rfl) rfl,
    (isOpen_read dev maxBytes m).trans hopen, hleft, by omega⟩

/-- A round reads on, and ends the wait once the sign is there. -/
theorem round_promptBody {prompt buffer : Bytes} (hprompt : prompt ∈ prompts)
    (hopen : m.isOpen = true) (hbuffer : buffer ++ left m.device = prompt) :
    ∃ more m', m'.isOpen = true ∧ more ++ left m'.device = prompt ∧
      (left m'.device).length ≤ (left m.device).length - min pace 128 ∧
      (promptBody dev).round (buffer, m) =
        if '>'.toUInt8 ∈ more then .inl (.ok more, m') else .inr (more, sleepFor dev 20 m') := by
  obtain ⟨chunk, m', hread, hopen', hleft, hlength⟩ :=
    readString_of_supplies hsupplies hopen (show 128 ≠ 0 by decide)
  have hmore : (buffer ++ chunk) ++ left m'.device = prompt := by
    rw [List.append_assoc, hleft, hbuffer]
  have hpart := promptPart hprompt hmore
  refine ⟨buffer ++ chunk, m', hopen', hmore, hlength, ?_⟩
  have hdemuxed : (if chunk = [] then (buffer, m') else demuxIntoQueue (buffer ++ chunk) m') =
      (buffer ++ chunk, m') := by
    split_ifs with hnil
    · rw [hnil, List.append_nil]
    · rw [demuxIntoQueue, hpart.demux]
      simp only [List.append_nil]
  simp only [promptBody, hread, hdemuxed, hpart.not_error, or_false, hpart.sign_iff]

/-- **A prompt that comes in time** lets the data be written. -/
theorem expectPrompt_in_time (hdev : dev.Bounded reading writing oversleep) (hopen : m.isOpen = true)
    (hprompt : left m.device ∈ prompts)
    (htime : 5 ≤ min pace 128 * (5000 / promptRoundLimit reading oversleep)) :
    (expectPrompt dev 5000 m).1 = none ∧ (expectPrompt dev 5000 m).2.isOpen = true ∧
      left (expectPrompt dev 5000 m).2.device ∈ [[], ascii " "] := by
  have hshort : (left m.device).length ≤ 5 := by
    have hall : ∀ prompt ∈ prompts, prompt.length ≤ 5 := by decide
    exact hall _ hprompt
  have hsettled : ∀ {buffer : Bytes} {m' : Modem δ}, m'.isOpen = true →
      buffer ++ left m'.device = left m.device → '>'.toUInt8 ∈ buffer →
      (settlePrompt buffer m').1 = none ∧ (settlePrompt buffer m').2.isOpen = true ∧
        left (settlePrompt buffer m').2.device ∈ [[], ascii " "] := by
    intro buffer m' hopen' hbuffer hsign
    have hpart := promptPart hprompt hbuffer
    have hsettle : settlePrompt buffer m' = (none, m') := by
      simp only [settlePrompt, demuxIntoQueue, hpart.demux, List.append_nil, if_neg hpart.not_error,
        if_neg (not_not.mpr hsign)]
    rw [hsettle]
    exact ⟨rfl, hopen', hpart.unread_of_sign hsign⟩
  have hloop := (promptBody dev).until_progress (m.clock + 5000)
    (promptRoundLimit reading oversleep) (min pace 128) (fun s => (left s.2.device).length)
    (fun s => s.2.isOpen = true ∧ s.1 ++ left s.2.device = left m.device ∧ '>'.toUInt8 ∉ s.1)
    (fun result => ∃ buffer, result.1 = .ok buffer ∧ result.2.isOpen = true ∧
      buffer ++ left result.2.device = left m.device ∧ '>'.toUInt8 ∈ buffer)
    (by
      rintro ⟨buffer, m'⟩ result ⟨hopen', hbuffer, -⟩ hround
      obtain ⟨more, m'', hopen'', hmore, -, hnext⟩ :=
        round_promptBody hsupplies hprompt hopen' hbuffer
      rw [hnext] at hround
      split_ifs at hround with hsign
      cases hround
      exact ⟨more, rfl, hopen'', hmore, hsign⟩)
    (by
      rintro ⟨buffer, m'⟩ s' ⟨hopen', hbuffer, -⟩ hround
      have hlater := within_promptBody_inr hdev hround
      obtain ⟨more, m'', hopen'', hmore, hlength, hnext⟩ :=
        round_promptBody hsupplies hprompt hopen' hbuffer
      rw [hnext] at hround
      split_ifs at hround with hsign
      cases hround
      have hkept : left (sleepFor dev 20 m'').device = left m''.device :=
        hsupplies.sleep 20 m''.device
      refine ⟨⟨hopen'', by rw [hkept]; exact hmore, hsign⟩, hlater, ?_⟩
      rw [hkept]
      exact hlength)
    (s := ([], m.record .fresh)) ⟨hopen, rfl, List.not_mem_nil⟩
  unfold expectPrompt
  simp only
  have hclock : (m.record .fresh).clock = m.clock := rfl
  rw [hclock]
  generalize Deadline.Body.until _ _ _ = ended at hloop ⊢
  cases ended with
  | inl result =>
      obtain ⟨result, m'⟩ := result
      obtain ⟨buffer, rfl, hopen', hbuffer, hsign⟩ := hloop
      exact hsettled hopen' hbuffer hsign
  | inr late =>
      -- All of the prompt has been read by then.
      obtain ⟨⟨hopen', hbuffer, hsign⟩, hleft⟩ := hloop
      have hleft : (left late.2.device).length ≤ (left m.device).length -
          (m.clock + 5000 - m.clock).toNat / promptRoundLimit reading oversleep * min pace 128 :=
        hleft
      have htotal : (m.clock + 5000 - m.clock).toNat = 5000 := by omega
      rw [htotal, Nat.mul_comm] at hleft
      have hnil : left late.2.device = [] := List.length_eq_zero_iff.mp (by omega)
      exact absurd ((promptPart hprompt hbuffer).sign_of_whole hnil) hsign

end Supplied

end Modem

/-! ### Answers to the data -/

def blankLine : OrdinaryLine := ⟨⟨[], List.forall_mem_nil _⟩, by decide +kernel⟩

/-- The line of a prompt whose blank has not been read. -/
def promptRest : OrdinaryLine := ⟨⟨ascii " ", by decide +kernel⟩, by decide +kernel⟩

/-- An OK behind a blank line and others, with nothing unasked behind it. -/
structure Answer.Accepts (answer : Answer) (limit : Nat) : Prop where
  final_ok : answer.final = .ok
  silent : answer.after = []
  led : ∃ items, answer.items = .ordinary blankLine :: items
  clear : answer.Without (okTokens ++ errorTokens)
  short : answer.through.length ≤ limit

/-- A blank that is left of the prompt makes another line of the first one. -/
theorem Answer.Accepts.behind {answer : Answer} {limit : Nat} (h : answer.Accepts limit)
    {unread : Bytes} (hunread : unread ∈ [[], ascii " "]) :
    ∃ answer' : Answer, answer'.stream = unread ++ answer.stream ∧ answer'.final = .ok ∧
      answer'.after = [] ∧ answer'.Without (okTokens ++ errorTokens) ∧ answer'.lines ≠ [] ∧
      answer'.through.length ≤ limit + 1 := by
  obtain ⟨items, hled⟩ := h.led
  rcases List.mem_pair.mp hunread with rfl | rfl
  · refine ⟨answer, rfl, h.final_ok, h.silent, h.clear, ?_, Nat.le_succ_of_le h.short⟩
    rw [Answer.lines, hled]
    simp [StreamItem.kept, Line.ended, ascii]
  · refine ⟨{ answer with items := .ordinary promptRest :: items }, ?_, h.final_ok, h.silent, ?_, ?_, ?_⟩
    · rw [Answer.stream, Answer.stream, Answer.sent, Answer.sent, hled]
      rfl
    · intro item hitem token htoken
      rcases List.mem_cons.mp hitem with rfl | hmem
      · have hall : ∀ token ∈ okTokens ++ errorTokens,
            ¬ token <:+: (StreamItem.ordinary promptRest).text := by decide +kernel
        exact hall token htoken
      · refine h.clear item ?_ token htoken
        rw [hled]
        exact List.mem_cons_of_mem _ hmem
    · rw [Answer.lines]
      simp [StreamItem.kept, Line.ended, ascii]
    · have hshort := h.short
      rw [Answer.through, hled] at hshort
      have hone : (Answer.through { answer with items := .ordinary promptRest :: items }).length =
          ((StreamItem.ordinary blankLine :: items).flatMap StreamItem.text ++
            answer.final.item.text).length + 1 := rfl
      omega

/-- A device that prompts for each of the PDUs, and accepts it. -/
structure Device.Accepts {δ : Type} (dev : Device δ) (left : δ → Bytes) (pdus : List Bytes)
    (limit : Nat) : Prop where
  command : ∀ pduHex ∈ pdus, ∀ d, ∃ accepted, (dev.write (Modem.cmgsOf pduHex) d).result = .ok accepted ∧
    left (dev.write (Modem.cmgsOf pduHex) d).after = left d ++ ascii "\r\n> "
  data : ∀ pduHex ∈ pdus, ∀ d, ∃ accepted answer, Answer.Accepts answer limit ∧
    (dev.write (pduHex ++ [0x1A]) d).result = .ok accepted ∧
    left (dev.write (pduHex ++ [0x1A]) d).after = left d ++ answer.stream

namespace Modem

variable {δ : Type} {dev : Device δ} {left : δ → Bytes} {pace reading writing oversleep limit : Nat}
  {m : Modem δ}

theorem waitUntilOk_accepted (hdev : dev.Bounded reading writing oversleep)
    (hsupplies : dev.Supplies left pace) (hopen : m.isOpen = true) {answer : Answer}
    (haccepts : answer.Accepts limit) {unread : Bytes} (hunread : unread ∈ [[], ascii " "])
    (hleft : left m.device = unread ++ answer.stream) {timeout : Int} (htimeout : 0 ≤ timeout)
    (htime : limit + 1 ≤ min pace 256 * (timeout.toNat / roundLimit reading oversleep + 1)) :
    ∃ buffer m', waitUntilOk dev [] timeout 50 m = (none, buffer, m') ∧ m'.isOpen = true ∧
      left m'.device ∈ [[], ascii "\n"] := by
  obtain ⟨answer', hstream, hfinal, hsilent, hclear, hled, hshort⟩ := haccepts.behind hunread
  obtain ⟨text, h⟩ := exists_waited dev timeout 50 m
  obtain ⟨-, hstatus⟩ := status_waitUntilOk_of_inTime hdev hsupplies hclear hled hopen
    (hleft.trans hstream.symm) htimeout (hshort.trans htime) h
  rw [hfinal] at hstatus
  have hnone : (waitUntilOk dev [] timeout 50 m).1 = none := mapError_inj (by simp) hstatus
  have hunread' := Answer.unread_of_ok hfinal hsilent
    (hclear.mono (List.subset_append_left _ _))
    ((h.octets_left hsupplies hopen).trans (hleft.trans hstream.symm)) (h.ok hnone)
  obtain ⟨buffer, m', ⟨received, hfilling, -⟩, hwait, -⟩ := waitUntilOk_eq dev timeout 50 m
  refine ⟨_, _, Prod.ext hnone rfl, ?_, hunread'⟩
  rw [congrArg Prod.snd hwait]
  exact hfilling.isOpen.trans hopen

/-! ### One PDU and all of them -/

/-- Between two PDUs the port is open, and the LF of the last answer may be unread. -/
structure Rested (left : δ → Bytes) (m : Modem δ) : Prop where
  isOpen : m.isOpen = true
  unread : left m.device ∈ [[], ascii "\n"]

section Accepted

variable (hdev : dev.Bounded reading writing oversleep) (hsupplies : dev.Supplies left pace)
  {pdus : List Bytes} (haccepts : dev.Accepts left pdus limit)
  (hprompt : 5 ≤ min pace 128 * (5000 / promptRoundLimit reading oversleep)) {timeout : Int}
  (htimeout : 0 ≤ timeout)
  (hanswer : limit + 1 ≤ min pace 256 * (timeout.toNat / roundLimit reading oversleep + 1))
include hdev hsupplies haccepts hprompt htimeout hanswer

theorem sendEncodedPdu_accepted {pduHex : Bytes} (hmem : pduHex ∈ pdus) {smscLength : UInt8}
    {rest : Bytes} (hpdu : pduHex = bytesToHex (smscLength :: rest)) (h : Rested left m) :
    ∃ accepted m', sendEncodedPdu dev pduHex timeout m = ((none, accepted), m') ∧ Rested left m' := by
  have hfirst : hexToBytes ((pduHex ++ [0x1A]).take 2) = .ok [smscLength] := by
    rw [hpdu, bytesToHex_cons]
    exact hexToBytes_bytesToHex [smscLength]
  have hcommand : cmgsCommand pduHex smscLength = cmgsOf pduHex := by
    rw [cmgsOf, hfirst]
    rfl
  obtain ⟨_, hwritten, hleft⟩ := haccepts.command pduHex hmem m.device
  have hasked := writeString_eq_wrote h.isOpen (cmgsOf_ne_nil pduHex) hwritten
  have hprompts : left (wrote dev (cmgsOf pduHex) m).device ∈ prompts := by
    show left (dev.write (cmgsOf pduHex) m.device).after ∈ prompts
    rw [hleft]
    rcases List.mem_pair.mp h.unread with hunread | hunread <;>
      · rw [hunread]
        decide
  obtain ⟨hnone, hopen, hunread⟩ :=
    expectPrompt_in_time hsupplies hdev (m := wrote dev (cmgsOf pduHex) m) h.isOpen hprompts hprompt
  generalize hprompted : expectPrompt dev 5000 (wrote dev (cmgsOf pduHex) m) = prompted at *
  obtain ⟨ec, m'⟩ := prompted
  obtain rfl : ec = none := hnone
  obtain ⟨accepted, answer, haccepted, hwritten', hleft'⟩ := haccepts.data pduHex hmem m'.device
  have hsent := write_eq_wrote hopen (show pduHex ++ [0x1A] ≠ [] by simp) hwritten'
  obtain ⟨buffer, m'', hwaited, hopen'', hunread''⟩ := waitUntilOk_accepted hdev hsupplies
    (m := (wrote dev (pduHex ++ [0x1A]) m').record .fresh) hopen haccepted hunread hleft' htimeout
    hanswer
  refine ⟨accepted, m'', ?_, hopen'', hunread''⟩
  rw [sendEncodedPdu]
  simp only [hfirst, Outcome.ok, List.headD_cons, hcommand, hasked, hprompted, hsent, hwaited,
    Option.isSome_none, Bool.false_eq_true, if_false]

theorem sendPdus_accepted {rest : List Bytes} (hsubset : rest ⊆ pdus)
    (hpdus : ∀ pduHex ∈ rest, ∃ smscLength octets, pduHex = bytesToHex (smscLength :: octets))
    (total : Nat) (h : Rested left m) : (sendPdus dev timeout rest total m).1.1 = none := by
  induction rest generalizing total m with
  | nil => rfl
  | cons pduHex rest ih =>
      obtain ⟨hmem, hrest⟩ := List.cons_subset.mp hsubset
      obtain ⟨⟨smscLength, octets, hpdu⟩, hlater⟩ := List.forall_mem_cons.mp hpdus
      obtain ⟨accepted, m', hsent, hnext⟩ :=
        sendEncodedPdu_accepted hdev hsupplies haccepts hprompt htimeout hanswer hmem hpdu h
      rw [sendPdus]
      simp only [hsent, Option.isSome_none, Bool.false_eq_true, if_false]
      exact ih hrest hlater (total + accepted) hnext

end Accepted

/-- A message that is sent has been written with all its prompts. -/
theorem writes_of_sent {message : Message} {timeout : Int}
    (hsent : (sendMessage dev message timeout m).1.1 = none) :
    writes (sendMessage dev message timeout m).2 =
      writes m ++ dialogue (encodeSegments message).out := by
  obtain ⟨events, htalk, -, hsuccess⟩ := exists_talk dev message timeout m
  rw [writes, htalk.log, List.filterMap_append, (hsuccess.mp hsent).1, writes]

/-- **A message is sent**, where the modem prompts for its PDUs and accepts them, and its answers come at
some pace and in time. `ct_modem_send_ex` succeeds then, and all of the message has been written. -/
theorem send_in_time (hdev : dev.Bounded reading writing oversleep)
    (hsupplies : dev.Supplies left pace) {smsc : Option Bytes} {destination text : Bytes}
    {dcs relativeValidityPeriod requestStatusReport timeout : Int} {message : Message}
    (hsubmit : CApi.submitMessage smsc destination text dcs relativeValidityPeriod
      requestStatusReport = some message) (hok : (encodeSegments message).ec = none)
    (haccepts : dev.Accepts left (encodeSegments message).out limit) (hopen : m.isOpen = true)
    (hunread : left m.device = [])
    (hprompt : 5 ≤ min pace 128 * (5000 / promptRoundLimit reading oversleep))
    (hanswer : limit + 1 ≤ min pace 256 *
      ((timeoutOr 10000 timeout).toNat / roundLimit reading oversleep + 1)) :
    let result := (Request.api (.sendEx smsc destination text dcs relativeValidityPeriod
      requestStatusReport timeout)).serve dev m
    result.1.status = .ok ∧
      writes result.2 = writes m ++ dialogue (encodeSegments message).out := by
  have hpdus : ∀ pduHex ∈ (encodeSegments message).out,
      ∃ smscLength octets, pduHex = bytesToHex (smscLength :: octets) := by
    intro pduHex hmem
    obtain ⟨tpdu, rfl⟩ := exists_tpdu hmem
    exact ⟨_, _, rfl⟩
  have hrested : Rested left m := ⟨hopen, by rw [hunread]; decide⟩
  have hall := sendPdus_accepted hdev hsupplies haccepts hprompt
    (patience_nonneg (.api (.sendEx smsc destination text dcs relativeValidityPeriod
      requestStatusReport timeout))) hanswer (List.Subset.refl _) hpdus 0 hrested
  have hsent : (sendMessage dev message (timeoutOr 10000 timeout) m).1.1 = none := by
    rw [sendMessage, hopen]
    simp only [Bool.not_true, Bool.false_eq_true, if_false, hok]
    exact hall
  have hserve : (Request.api (.sendEx smsc destination text dcs relativeValidityPeriod
      requestStatusReport timeout)).serve dev m =
        ({ status := mapError (sendMessage dev message (timeoutOr 10000 timeout) m).1.1 },
          (sendMessage dev message (timeoutOr 10000 timeout) m).2) := by
    simp only [Request.serve, ApiCall.start, CApi.sendEx, hsubmit, CApi.settle]
  rw [hserve]
  exact ⟨congrArg mapError hsent, writes_of_sent hsent⟩

def acceptance : Answer where
  items := [.ordinary blankLine, .ordinary ⟨⟨ascii "+CMGS: 7", by decide +kernel⟩, by decide⟩,
    .ordinary blankLine]
  final := .ok
  after := []
  unsolicited := kept_of_nothing

/-- A prompt for a command, and an OK for the data. -/
def promptOrAccept (data : Bytes) : Bytes :=
  if data.getLast? = some 0x1A then acceptance.stream else ascii "\r\n> "

theorem accepts_steady (pace : Nat) (pdus : List Bytes) :
    (steady pace promptOrAccept).Accepts id pdus 18 where
  command pduHex _ unread := by
    have hlast : (cmgsOf pduHex).getLast? ≠ some 0x1A := by
      rw [cmgsOf, cmgsCommand, List.getLast?_append, show (ascii "\r").getLast? = some 0x0D from rfl,
        Option.some_or]
      decide
    exact ⟨_, rfl, congrArg (unread ++ ·) (if_neg hlast)⟩
  data pduHex _ unread := by
    have hlast : (pduHex ++ [0x1A]).getLast? = some 0x1A := List.getLast?_concat
    refine ⟨_, acceptance, ?_, rfl, congrArg (unread ++ ·) (if_pos hlast)⟩
    refine ⟨rfl, rfl, ⟨_, rfl⟩, ?_, by decide⟩
    unfold Answer.Without
    decide +kernel

theorem send_in_time_hi :
    let message : Message :=
      { peerAddress := ascii "12", coding := .eightBit, userData := ascii "Hi" }
    let result := (Request.api (.sendEx none (ascii "12") (ascii "Hi") 4 (-1) 0 1000)).serve
      (steady 1 promptOrAccept) ⟨[], true, 0, [], []⟩
    result.1.status = .ok ∧ writes result.2 = [] ++ dialogue (encodeSegments message).out :=
  send_in_time (bounded_steady _ _) (supplies_steady _ _) rfl (by decide +kernel) (accepts_steady 1 _)
    rfl rfl (by decide) (by decide)

end Modem

end CometTextel
