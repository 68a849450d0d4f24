import CometTextel.Grammar

/-!
# The decoder is the grammar

Each reader of `decode` tests the length ahead of what it reads, and then moves an offset. Where
`ahead` octets are known to be there it refines the parser of the same field: it gives the same
value, at the offset of the parser's rest, and `DecodeFailure` where the parser fails. No access
outside the array and no subtraction below zero is left.
-/

namespace CometTextel

open ListParser

/-- With `ahead` octets left, `c` reads what `p` parses. -/
def Refines {α : Type} (ahead : Nat) (c : Cursor α) (p : Grammar.Octets α) : Prop :=
  ∀ bytes offset, offset + ahead ≤ bytes.length →
    match p (bytes.drop offset) with
    | some (a, rest) => ∃ stop, c bytes offset = .ok (a, stop) ∧ stop ≤ bytes.length ∧
        bytes.drop stop = rest
    | none => c bytes offset = decodeFailure

namespace Refines

variable {α β : Type} {ahead n : Nat}

theorem bind_apply (c : Cursor α) (k : α → Cursor β) (bytes : Bytes) (offset : Nat) :
    (c >>= k) bytes offset = (c bytes offset >>= fun (a, stop) => k a bytes stop) := rfl

theorem bind_of_ok {c : Cursor α} {k : α → Cursor β} {bytes : Bytes} {offset stop : Nat} {a : α}
    (h : c bytes offset = .ok (a, stop)) : (c >>= k) bytes offset = k a bytes stop := by
  rw [bind_apply, h]
  rfl

theorem bind_of_failure {c : Cursor α} {k : α → Cursor β} {bytes : Bytes} {offset : Nat}
    (h : c bytes offset = decodeFailure) : (c >>= k) bytes offset = decodeFailure := by
  rw [bind_apply, h]
  rfl

theorem mono {c : Cursor α} {p : Grammar.Octets α} (h : Refines n c p) (hle : n ≤ ahead) :
    Refines ahead c p := fun bytes offset hahead => h bytes offset (by omega)

theorem pure (a : α) : Refines ahead (Pure.pure a) (Pure.pure a) := by
  intro bytes offset hahead
  exact ⟨offset, rfl, by omega, rfl⟩

theorem bind {c : Cursor α} {k : α → Cursor β} {p : Grammar.Octets α} {q : α → Grammar.Octets β}
    (hc : Refines ahead c p) (hk : ∀ a, Refines 0 (k a) (q a)) :
    Refines ahead (c >>= k) (p >>= q) := by
  intro bytes offset hahead
  have hfirst := hc bytes offset hahead
  cases hp : p (bytes.drop offset) with
  | none =>
      rw [hp] at hfirst
      rw [ListParser.bind_of_none hp]
      exact bind_of_failure hfirst
  | some result =>
      obtain ⟨a, rest⟩ := result
      rw [hp] at hfirst
      obtain ⟨stop, hok, hstop, rfl⟩ := hfirst
      rw [ListParser.bind_of_some hp, bind_of_ok hok]
      exact hk a bytes stop hstop

theorem remains_bind {k : Unit → Cursor α} {p : Grammar.Octets α} (hk : Refines n (k ()) p)
    (hneeds : Needs n p) : Refines ahead (Cursor.remains n >>= k) p := by
  intro bytes offset hahead
  by_cases hshort : offset + n > bytes.length
  · have hfail : p (bytes.drop offset) = none := hneeds _ (by rw [List.length_drop]; omega)
    rw [hfail]
    exact bind_of_failure (if_pos hshort)
  · have hok : Cursor.remains n bytes offset = .ok ((), offset) := if_neg hshort
    rw [bind_of_ok hok]
    exact hk bytes offset (by omega)

theorem next_bind {k : UInt8 → Cursor α} {q : UInt8 → Grammar.Octets α}
    (hk : ∀ x, Refines n (k x) (q x)) : Refines (n + 1) (Cursor.next >>= k) (item >>= q) := by
  intro bytes offset hahead
  have hlt : offset < bytes.length := by omega
  have hok : Cursor.next bytes offset = .ok (bytes[offset], offset + 1) := by
    rw [Cursor.next, getAt_of_lt hlt]
    rfl
  rw [bind_of_ok hok, List.drop_eq_getElem_cons hlt, ListParser.bind_of_some (item_cons _ _)]
  exact hk _ bytes (offset + 1) (by omega)

theorem skip_bind {k : Unit → Cursor α} {q : Grammar.Octets α} (hk : Refines n (k ()) q) :
    Refines (n + 1) (Cursor.skip 1 >>= k) (item >>= fun _ => q) := by
  intro bytes offset hahead
  have hlt : offset < bytes.length := by omega
  have hok : Cursor.skip 1 bytes offset = .ok ((), offset + 1) := rfl
  rw [bind_of_ok hok, List.drop_eq_getElem_cons hlt, ListParser.bind_of_some (item_cons _ _)]
  exact hk bytes (offset + 1) (by omega)

theorem take_bind {count : Nat} {k : Bytes → Cursor α} {q : Bytes → Grammar.Octets α}
    (hk : ∀ xs, xs.length = count → Refines n (k xs) (q xs)) :
    Refines (count + n) (Cursor.take count >>= k) (ListParser.take count >>= q) := by
  intro bytes offset hahead
  have hslice : slice bytes offset count = .ok ((bytes.drop offset).take count) :=
    slice_of_le (by omega)
  have hok : Cursor.take count bytes offset =
      .ok ((bytes.drop offset).take count, offset + count) := by
    rw [Cursor.take, hslice]
    rfl
  have hlength : ((bytes.drop offset).take count).length = count := by
    rw [List.length_take, List.length_drop]
    omega
  have hparse : ListParser.take count (bytes.drop offset) =
      some ((bytes.drop offset).take count, (bytes.drop offset).drop count) :=
    if_pos (by rw [List.length_drop]; omega)
  rw [bind_of_ok hok, ListParser.bind_of_some hparse, List.drop_drop]
  exact hk _ hlength bytes (offset + count) (by omega)

theorem checked_bind {x : Checked α} {a : α} {k : α → Cursor β} {q : Grammar.Octets β}
    (hx : x = .ok a) (hk : Refines ahead (k a) q) : Refines ahead (liftM x >>= k) q := by
  subst hx
  exact hk

theorem checked_failure {x : Checked α} {k : α → Cursor β} (hx : x = decodeFailure) :
    Refines ahead (liftM x >>= k) ListParser.fail := by
  subst hx
  exact fun _ _ _ => rfl

theorem checked {x : Checked α} {a : α} (hx : x = .ok a) :
    Refines ahead (liftM x) (Pure.pure a) := by
  subst hx
  exact pure a

end Refines

/-! ### Addresses -/

theorem serializeDigits_bytesToHex (octets : Bytes) :
    serializeDigits (bytesToHex octets) = .ok (Grammar.semiOctets octets) :=
  serializeDigits_eq _

theorem decodeAddress_refines : Refines 0 decodeAddress Grammar.address := by
  refine Refines.remains_bind (n := 1) ?_ (Needs.item fun _ => Needs.zero _)
  refine Refines.next_bind (n := 0) fun digitCount => ?_
  refine Refines.remains_bind (n := 1) ?_ (Needs.item fun _ => Needs.zero _)
  refine Refines.skip_bind (n := 0) ?_
  refine Refines.remains_bind (n := (digitCount.toNat + 1) / 2) ?_ (Needs.take fun _ => Needs.zero _)
  refine Refines.take_bind (n := 0) fun octets hoctets => ?_
  refine Refines.checked_bind (serializeDigits_bytesToHex octets) ?_
  by_cases hlong : (Grammar.semiOctets octets).length > digitCount.toNat
  · rw [if_pos hlong]
    exact Refines.pure _
  · rw [if_neg hlong]
    have hall : (Grammar.semiOctets octets).take digitCount.toNat = Grammar.semiOctets octets :=
      List.take_of_length_le (by omega)
    rw [hall]
    exact Refines.pure _

theorem decodeServiceCenter_refines : Refines 1 decodeServiceCenter Grammar.serviceCenter := by
  refine Refines.next_bind (n := 0) fun length => ?_
  by_cases hzero : length = 0
  · subst hzero
    exact Refines.pure _
  · have hpos : length > 0 := by
      rw [gt_iff_lt, UInt8.lt_iff_toNat_lt]
      exact Nat.pos_of_ne_zero fun h => hzero (UInt8.toNat_inj.mp h)
    have hcount : 1 ≤ length.toNat := UInt8.lt_iff_toNat_lt.mp hpos
    rw [if_pos hpos, if_neg hzero]
    refine Refines.remains_bind (n := length.toNat) ?_ ?_
    · refine Refines.checked_bind (subtract_of_le hcount) ?_
      refine Refines.mono (n := 1) ?_ hcount
      refine Refines.skip_bind (n := 0) ?_
      refine Refines.remains_bind (n := length.toNat - 1) ?_ (Needs.take fun _ => Needs.zero _)
      refine Refines.take_bind (n := 0) fun octets hoctets => ?_
      exact Refines.checked (serializeDigits_bytesToHex octets)
    · have hneeds : Needs (length.toNat - 1 + 0 + 1) (do
          let _typeOfAddress ← item
          let octets ← ListParser.take (length.toNat - 1)
          return Grammar.semiOctets octets) :=
        Needs.item fun _ => Needs.take fun _ => Needs.zero _
      rwa [Nat.add_zero, Nat.sub_add_cancel hcount] at hneeds

/-! ### User data -/

theorem concatFields_other {identifier : UInt8} {data : Bytes}
    (height : ¬ (identifier = 0x00 ∧ data.length = 3))
    (hsixteen : ¬ (identifier = 0x08 ∧ data.length = 4)) (message : Message)
    (elements : List (UInt8 × Bytes)) :
    Grammar.concatFields message ((identifier, data) :: elements) =
      Grammar.concatFields message elements := by
  rw [Grammar.concatFields]
  · intro ref total seq heq
    cases heq
    exact height ⟨rfl, rfl⟩
  · intro hi lo total seq heq
    cases heq
    exact hsixteen ⟨rfl, rfl⟩

/-- The scan of the information elements stays inside the UDH and finds the grammar's fields. -/
theorem parseConcatLoop_eq (udh : Bytes) : ∀ (fuel i : Nat) (message : Message),
    udh.length - i ≤ fuel → i ≤ udh.length →
    parseConcatLoop udh udh.length i message =
      .ok (Grammar.concatFields message (Grammar.informationElements (udh.drop i))) := by
  intro fuel
  induction fuel with
  | zero =>
      intro i message hfuel hi
      rw [parseConcatLoop, if_neg (by omega), List.drop_eq_nil_of_le (by omega),
        Grammar.informationElements]
      · rfl
      · intro identifier length octets hnil
        cases hnil
  | succ fuel ih =>
      intro i message hfuel hi
      rw [parseConcatLoop]
      by_cases hheader : i + 2 ≤ udh.length
      · have hfirst : i < udh.length := by omega
        have hsecond : i + 1 < udh.length := by omega
        rw [if_pos hheader, getAt_of_lt hfirst, getAt_of_lt hsecond,
          List.drop_eq_getElem_cons hfirst, List.drop_eq_getElem_cons hsecond,
          Grammar.informationElements]
        simp only [bind, Except.bind, pure, Except.pure]
        generalize hidentifier : udh[i] = identifier
        generalize hlength : udh[i + 1] = length
        have hdrop : (udh.drop (i + 2)).length = udh.length - (i + 2) := List.length_drop
        by_cases hwhole : i + 2 + length.toNat > udh.length
        · rw [if_pos hwhole, if_neg (by rw [hdrop]; omega), Grammar.concatFields]
        · have hfits : length.toNat ≤ (udh.drop (i + 2)).length := by omega
          have hdata : ((udh.drop (i + 2)).take length.toNat).length = length.toNat := by
            rw [List.length_take]
            omega
          have hnext : (udh.drop (i + 2)).drop length.toNat = udh.drop (i + 2 + length.toNat) :=
            List.drop_drop
          have hget : ∀ j, j < length.toNat →
              getAt udh (i + 2 + j) = .ok (((udh.drop (i + 2)).take length.toNat).getD j 0) := by
            intro j hj
            rw [getAt_of_lt (show i + 2 + j < udh.length by omega),
              List.getD_eq_getElem _ _ (by omega), List.getElem_take, List.getElem_drop]
          rw [if_neg hwhole, if_pos hfits, hnext]
          generalize hpayload : (udh.drop (i + 2)).take length.toNat = data at *
          by_cases height : identifier = 0x00 ∧ length = 0x03
          · obtain ⟨rfl, rfl⟩ := height
            obtain ⟨ref, total, seq, rfl⟩ := List.length_eq_three.mp hdata
            rw [if_pos ⟨rfl, rfl⟩, hget 0 (by decide), hget 1 (by decide), hget 2 (by decide)]
            rfl
          · rw [if_neg height]
            by_cases hsixteen : identifier = 0x08 ∧ length = 0x04
            · obtain ⟨rfl, rfl⟩ := hsixteen
              obtain ⟨hi', lo, total, seq, rfl⟩ : ∃ a b c d, data = [a, b, c, d] := by
                rcases data with _ | ⟨a, _ | ⟨b, _ | ⟨c, _ | ⟨d, _ | ⟨e, data⟩⟩⟩⟩⟩ <;>
                  simp_all
              rw [if_pos ⟨rfl, rfl⟩, hget 0 (by decide), hget 1 (by decide), hget 2 (by decide),
                hget 3 (by decide)]
              rfl
            · rw [if_neg hsixteen, ih _ _ (by omega) (by omega), concatFields_other]
              · rw [hdata]
                exact fun h => height ⟨h.1, UInt8.toNat_inj.mp h.2⟩
              · rw [hdata]
                exact fun h => hsixteen ⟨h.1, UInt8.toNat_inj.mp h.2⟩
      · rw [if_neg hheader]
        have hshort : (udh.drop i).length ≤ 1 := by
          rw [List.length_drop]
          omega
        rcases hdrop : udh.drop i with _ | ⟨first, _ | ⟨second, octets⟩⟩
        · simp [Grammar.informationElements, Grammar.concatFields, pure, Except.pure]
        · simp [Grammar.informationElements, Grammar.concatFields, pure, Except.pure]
        · simp [hdrop] at hshort

theorem decodeUdh_eq (ud : Bytes) (udhi : Bool) (message : Message) :
    decodeUdh ud udhi message =
      match Grammar.userDataHeader ud udhi message with
      | some header => .ok header
      | none => decodeFailure := by
  cases udhi with
  | false => rfl
  | true =>
      cases ud with
      | nil => rfl
      | cons length octets =>
          have hget : getAt (length :: octets) 0 = .ok length := rfl
          rw [decodeUdh, Grammar.userDataHeader]
          simp only [if_true, if_neg (List.cons_ne_nil length octets), hget, bind, Except.bind]
          by_cases hfits : length.toNat ≤ octets.length
          · have hslice : slice (length :: octets) 0 (length.toNat + 1) =
                .ok (length :: octets.take length.toNat) := by
              rw [slice_of_le (by rw [List.length_cons]; omega), List.drop_zero,
                List.take_succ_cons]
            have hlength : (length :: octets.take length.toNat).length = 1 + length.toNat := by
              rw [List.length_cons, List.length_take]
              omega
            have hloop := parseConcatLoop_eq (length :: octets.take length.toNat) _ 1
              { message with hasUdh := true } (Nat.le_refl _) (by omega)
            rw [hlength] at hloop
            have hparse : parseConcatFromUdh (length :: octets.take length.toNat)
                { message with hasUdh := true } = .ok (Grammar.concatFields
                  { message with hasUdh := true }
                  (Grammar.informationElements (octets.take length.toNat))) := by
              rw [parseConcatFromUdh, if_neg (List.cons_ne_nil _ _)]
              have hudhl : getAt (length :: octets.take length.toNat) 0 = .ok length := rfl
              simp only [hudhl, bind, Except.bind, hlength]
              rw [if_neg (by omega), hloop]
              rfl
            rw [if_neg (by rw [List.length_cons]; omega), hslice]
            simp only [hparse, if_pos hfits]
            rfl
          · rw [if_pos (by rw [List.length_cons]; omega), if_neg hfits]

theorem decode7bit_packedLength (octets : Bytes) (udl : Nat)
    (hlength : octets.length = Grammar.packedLength udl) :
    decode7bit octets udl = .ok (septetsOf udl (octetValue octets)) := by
  have hcount : min udl (8 * Grammar.packedLength udl / 7) = udl := by
    rw [Grammar.packedLength]
    omega
  rw [decode7bit_eq, hlength, hcount]

theorem gsm7ToUtf8_accept (septets : Bytes) :
    (gsm7ToUtf8 septets >>= Outcome.accept) = .ok (Grammar.gsm7Text septets) := by
  rw [gsm7ToUtf8_eq]
  rfl

theorem decodeUcs2_accept (octets : Bytes) :
    (decodeUcs2 octets >>= Outcome.accept) =
      match Grammar.ucs2Text octets with
      | some text => .ok text
      | none => decodeFailure := by
  rw [decodeUcs2_eq, Grammar.ucs2Text]
  cases utf16Codepoints octets <;> rfl

theorem decodeUserData_eq (udl : UInt8) (ud : Bytes) (udhi : Bool) (message : Message) :
    decodeUserData udl ud udhi message =
      match Grammar.userData udl ud udhi message with
      | some message => .ok message
      | none => decodeFailure := by
  rw [decodeUserData, Grammar.userData, decodeUdh_eq]
  cases Grammar.userDataHeader ud udhi message with
  | none => rfl
  | some header =>
      obtain ⟨udhOctets, message⟩ := header
      simp only [bind, Except.bind, Option.bind_some]
      by_cases hgsm : message.coding = .gsm7Bit
      · have hpackedLength : (udl.toNat * 7 + 7) / 8 = Grammar.packedLength udl.toNat := rfl
        simp only [if_pos hgsm, hpackedLength]
        by_cases hpacked : ud.length < Grammar.packedLength udl.toNat
        · rw [if_pos hpacked, if_pos (Or.inl hpacked)]
        · rw [if_neg hpacked]
          by_cases hskip : udl.toNat < if udhi then (udhOctets * 8 + 6) / 7 else 0
          · rw [if_pos hskip, if_pos (Or.inr hskip)]
          · rw [if_neg hskip, if_neg (not_or.mpr ⟨hpacked, hskip⟩)]
            generalize (if udhi then (udhOctets * 8 + 6) / 7 else 0) = skip at *
            have hslice : slice ud 0 (Grammar.packedLength udl.toNat) = .ok _ :=
              slice_of_le (by omega)
            have hseptets := decode7bit_packedLength (ud.take (Grammar.packedLength udl.toNat))
              udl.toNat (by rw [List.length_take]; omega)
            rw [hslice, List.drop_zero]
            simp only [hseptets, length_septetsOf]
            rw [if_neg (by omega), eraseFront_of_le (by rw [length_septetsOf]; omega)]
            simp only [gsm7ToUtf8_eq]
            rfl
      · simp only [if_neg hgsm]
        by_cases hshort : udl.toNat < udhOctets ∨ ud.length < udl.toNat
        · rw [if_pos hshort, if_pos hshort]
        · have hsub := subtract_of_le (show udhOctets ≤ udl.toNat by omega)
          have hslice : slice ud udhOctets (udl.toNat - udhOctets) = .ok _ :=
            slice_of_le (by omega)
          have hpayload : (ud.drop udhOctets).take (udl.toNat - udhOctets) =
              (ud.take udl.toNat).drop udhOctets := List.drop_take.symm
          rw [if_neg hshort, if_neg hshort, hsub]
          simp only [hslice, hpayload]
          by_cases hucs2 : message.coding = .ucs2
          · simp only [if_pos hucs2, decodeUcs2_eq, Grammar.ucs2Text]
            cases utf16Codepoints ((ud.take udl.toNat).drop udhOctets) <;> rfl
          · simp only [if_neg hucs2]
            rfl

theorem decodeReportData_eq (coding : DataCoding) (udl : Nat) (payload : Bytes)
    (hlength : coding = .gsm7Bit → payload.length = Grammar.packedLength udl) :
    decodeReportData coding udl payload =
      match Grammar.reportText coding udl payload with
      | some text => .ok text
      | none => decodeFailure := by
  rw [decodeReportData, Grammar.reportText]
  by_cases hgsm : coding = .gsm7Bit
  · rw [if_pos hgsm, if_pos hgsm, decode7bit_packedLength payload udl (hlength hgsm)]
    exact gsm7ToUtf8_accept _
  · rw [if_neg hgsm, if_neg hgsm]
    by_cases hucs2 : coding = .ucs2
    · rw [if_pos hucs2, if_pos hucs2]
      exact decodeUcs2_accept payload
    · rw [if_neg hucs2, if_neg hucs2]
      rfl

/-! ### The three layouts -/

theorem decodeReportParameters_refines (parameterIndicator : UInt8) (message : Message) :
    Refines 0 (decodeReportParameters parameterIndicator message)
      (Grammar.reportParameters parameterIndicator message) := by
  refine Refines.bind ?_ fun message => Refines.bind ?_ fun message => ?_
  · by_cases hpid : parameterIndicator &&& 0x01 ≠ 0
    · rw [if_pos hpid, if_pos hpid]
      refine Refines.remains_bind (n := 1) ?_ (Needs.item fun _ => Needs.zero _)
      exact Refines.next_bind (n := 0) fun protocolId => Refines.pure _
    · rw [if_neg hpid, if_neg hpid]
      exact Refines.pure _
  · by_cases hdcs : parameterIndicator &&& 0x02 ≠ 0
    · rw [if_pos hdcs, if_pos hdcs]
      refine Refines.remains_bind (n := 1) ?_ (Needs.item fun _ => Needs.zero _)
      exact Refines.next_bind (n := 0) fun octet => Refines.pure _
    · rw [if_neg hdcs, if_neg hdcs]
      exact Refines.pure _
  · by_cases hudl : parameterIndicator &&& 0x04 ≠ 0
    · rw [if_pos hudl, if_pos hudl]
      refine Refines.remains_bind (n := 1) ?_ (Needs.item fun _ => Needs.zero _)
      refine Refines.next_bind (n := 0) fun udl => ?_
      refine Refines.remains_bind ?_ (Needs.take fun _ => Needs.zero _)
      refine Refines.take_bind (n := 0) fun payload hpayload => ?_
      have hlength : payload.length =
          if message.coding = .gsm7Bit then Grammar.packedLength udl.toNat else udl.toNat := hpayload
      have htext := decodeReportData_eq message.coding udl.toNat payload
        fun hgsm => by rw [hlength, if_pos hgsm]
      cases hreport : Grammar.reportText message.coding udl.toNat payload with
      | none =>
          rw [hreport] at htext
          exact Refines.checked_failure htext
      | some text =>
          rw [hreport] at htext
          exact Refines.checked_bind htext (Refines.pure _)
    · rw [if_neg hudl, if_neg hudl]
      exact Refines.pure _

theorem decodeStatusReport_refines (message : Message) :
    Refines 0 (decodeStatusReport message) (Grammar.statusReport message) := by
  refine Refines.remains_bind (n := 1) ?_ (Needs.item fun _ => Needs.zero _)
  refine Refines.next_bind (n := 0) fun messageReference => ?_
  refine Refines.bind decodeAddress_refines fun peerAddress => ?_
  refine Refines.remains_bind (n := 7 + (7 + (0 + 1))) ?_
    (Needs.take fun _ => Needs.take fun _ => Needs.item fun _ => Needs.zero _)
  refine Refines.take_bind fun timestamp _ => ?_
  refine Refines.checked_bind (serializeDigits_bytesToHex timestamp) ?_
  refine Refines.take_bind fun discharge _ => ?_
  refine Refines.checked_bind (serializeDigits_bytesToHex discharge) ?_
  refine Refines.next_bind fun tpStatus => ?_
  -- TP-PI and what follows it are there or not
  intro bytes offset hahead
  have hmore : Cursor.more bytes offset = .ok (decide (offset < bytes.length), offset) := rfl
  rw [Refines.bind_of_ok hmore]
  by_cases hlt : offset < bytes.length
  · have hnext := Refines.next_bind (n := 0) (fun parameterIndicator =>
      decodeReportParameters_refines parameterIndicator { message with
        isStatusReport := true, messageReference, peerAddress
        serviceTimestamp := Grammar.semiOctets timestamp
        dischargeTime := Grammar.semiOctets discharge, tpStatus }) bytes offset hlt
    rw [List.drop_eq_getElem_cons hlt, ListParser.bind_of_some (item_cons _ _)] at hnext
    rw [List.drop_eq_getElem_cons hlt]
    simp only [hlt, decide_true, if_true]
    exact hnext
  · have hend : bytes.drop offset = [] := List.drop_eq_nil_of_le (by omega)
    rw [hend]
    simp only [hlt, decide_false]
    exact ⟨offset, rfl, by omega, hend⟩

theorem decodeValidityPeriod_refines (vpf : UInt8) :
    Refines 0 (decodeValidityPeriod vpf) (Grammar.validityPeriod vpf) := by
  rw [decodeValidityPeriod, Grammar.validityPeriod]
  by_cases hrelative : vpf = 0x02
  · subst hrelative
    refine Refines.remains_bind (n := 1) ?_ (Needs.item fun _ => Needs.zero _)
    intro bytes offset hahead
    have hlt : offset < bytes.length := hahead
    have hslice : slice bytes offset 1 = .ok [bytes[offset]] := by
      rw [slice_of_le hahead, List.drop_eq_getElem_cons hlt]
      rfl
    have htake : Cursor.take 1 bytes offset = .ok ([bytes[offset]], offset + 1) := by
      rw [Cursor.take, hslice]
      rfl
    rw [List.drop_eq_getElem_cons hlt]
    exact ⟨offset + 1, Refines.bind_of_ok htake, hahead, rfl⟩
  · by_cases hlong : vpf = 0x01 ∨ vpf = 0x03
    · simp only [if_neg hrelative, if_pos hlong]
      refine Refines.remains_bind (n := 7) ?_ (Needs.take fun _ => Needs.zero _)
      exact Refines.take_bind (n := 0) fun _ _ => Refines.pure _
    · simp only [if_neg hrelative, if_neg hlong]
      refine Refines.remains_bind (n := 0) ?_ (Needs.zero _)
      intro bytes offset hahead
      have hnothing : Cursor.take 0 bytes offset = .ok ([], offset) := by
        rw [Cursor.take, slice_of_le hahead, List.take_zero]
        rfl
      exact ⟨offset, Refines.bind_of_ok hnothing, hahead, rfl⟩

theorem decodeUserData_refines (udhi : Bool) (message : Message) :
    Refines 0
      (do
        Cursor.remains 1
        let udl ← Cursor.next
        let ud ← Cursor.rest
        liftM (decodeUserData udl ud udhi message))
      (do
        let udl ← item
        fun ud => (Grammar.userData udl ud udhi message).map fun message => (message, ud)) := by
  refine Refines.remains_bind (n := 1) ?_ (Needs.item fun _ => Needs.zero _)
  refine Refines.next_bind (n := 0) fun udl => ?_
  intro bytes offset hahead
  have hrest : Cursor.rest bytes offset = .ok (bytes.drop offset, offset) := by
    have hall : (bytes.drop offset).take (bytes.length - offset) = bytes.drop offset :=
      List.take_of_length_le (by rw [List.length_drop])
    rw [Cursor.rest, subtract_of_le (show offset ≤ bytes.length from hahead)]
    simp only [bind, Except.bind]
    rw [slice_of_le (by omega), hall]
    rfl
  have hdata := decodeUserData_eq udl (bytes.drop offset) udhi message
  rw [Refines.bind_of_ok hrest]
  cases huserData : Grammar.userData udl (bytes.drop offset) udhi message with
  | none =>
      rw [huserData] at hdata
      simp only [huserData, hdata, Option.map_none]
      rfl
  | some message =>
      rw [huserData] at hdata
      simp only [huserData, hdata, Option.map_some]
      exact ⟨offset, rfl, hahead, rfl⟩

theorem decodeSubmitOrDeliver_refines (firstOctet : UInt8) (isSubmit : Bool) (message : Message) :
    Refines 0 (decodeSubmitOrDeliver firstOctet isSubmit message)
      (Grammar.submitOrDeliver firstOctet isSubmit message) := by
  have hbody : Refines 0
      (do
        let peerAddress ← decodeAddress
        Cursor.remains 2
        let protocolId ← Cursor.next
        let coding ← Cursor.next
        let message := { message with peerAddress, protocolId, coding := ⟨coding⟩ }
        let message ← (
          if isSubmit then do
            let relativeValidityPeriod ← decodeValidityPeriod ((firstOctet >>> 3) &&& 0x03)
            pure { message with relativeValidityPeriod }
          else do
            Cursor.remains 7
            let serviceTimestamp ← serializeDigits (bytesToHex (← Cursor.take 7))
            pure { message with serviceTimestamp })
        Cursor.remains 1
        let udl ← Cursor.next
        let ud ← Cursor.rest
        liftM (decodeUserData udl ud (firstOctet &&& 0x40 ≠ 0) message))
      (do
        let peerAddress ← Grammar.address
        let protocolId ← item
        let coding ← item
        let message := { message with peerAddress, protocolId, coding := ⟨coding⟩ }
        let message ← (
          if isSubmit then do
            let relativeValidityPeriod ← Grammar.validityPeriod ((firstOctet >>> 3) &&& 0x03)
            pure { message with relativeValidityPeriod }
          else do
            let octets ← ListParser.take 7
            pure { message with serviceTimestamp := Grammar.semiOctets octets })
        let udl ← item
        fun ud => (Grammar.userData udl ud (firstOctet &&& 0x40 ≠ 0) message).map
          fun message => (message, ud)) := by
    refine Refines.bind decodeAddress_refines fun peerAddress => ?_
    refine Refines.remains_bind (n := 0 + 1 + 1) ?_
      (Needs.item fun _ => Needs.item fun _ => Needs.zero _)
    refine Refines.next_bind fun protocolId => Refines.next_bind fun coding => ?_
    refine Refines.bind ?_ fun message => decodeUserData_refines _ message
    cases isSubmit with
    | true =>
        exact Refines.bind (decodeValidityPeriod_refines _) fun period => Refines.pure _
    | false =>
        refine Refines.remains_bind (n := 7) ?_ (Needs.take fun _ => Needs.zero _)
        refine Refines.take_bind (n := 0) fun octets _ => ?_
        exact Refines.checked_bind (serializeDigits_bytesToHex octets) (Refines.pure _)
  cases isSubmit with
  | true =>
      refine Refines.remains_bind (n := 1) ?_ (Needs.item fun _ => Needs.zero _)
      exact Refines.skip_bind (n := 0) hbody
  | false => exact hbody

theorem decodeTpdu_refines : Refines 1 decodeTpdu Grammar.tpdu := by
  refine Refines.bind decodeServiceCenter_refines fun serviceCenter => ?_
  refine Refines.remains_bind (n := 1) ?_ (Needs.item fun _ => Needs.zero _)
  refine Refines.next_bind (n := 0) fun firstOctet => ?_
  by_cases hreport : firstOctet &&& 0x03 = 0x02
  · simp only [if_pos hreport]
    exact decodeStatusReport_refines _
  · simp only [if_neg hreport]
    exact decodeSubmitOrDeliver_refines _ _ _

/-- **The decoder computes the grammar.** What the grammar gives is what `decode` returns, with no
fault on any input. -/
theorem decode_eq (pduHex : Bytes) :
    decode pduHex = (Grammar.pdu pduHex).mapError Fault.returned := by
  rw [decode, Grammar.pdu]
  rcases hexToBytes pduHex with ⟨ec, bytes⟩
  cases ec with
  | some e => rfl
  | none =>
      simp only [Outcome.accept, bind, Except.bind]
      by_cases hempty : bytes = []
      · subst hempty
        rfl
      · have htpdu := decodeTpdu_refines bytes 0 (by have := List.length_pos_iff.mpr hempty; omega)
        rw [List.drop_zero] at htpdu
        rw [if_neg hempty]
        cases hparse : Grammar.tpdu bytes with
        | none =>
            rw [hparse] at htpdu
            rw [htpdu]
            rfl
        | some result =>
            obtain ⟨message, rest⟩ := result
            rw [hparse] at htpdu
            obtain ⟨stop, hok, _⟩ := htpdu
            rw [hok]
            rfl

theorem hexToBytes_ec {hex : Bytes} {e : Errc} (h : (hexToBytes hex).ec = some e) :
    e = .invalidArgument := by
  have hloop : ∀ hex out, (hexToBytesLoop hex out).ec = some e → e = .invalidArgument := by
    intro hex out
    fun_induction hexToBytesLoop hex out with
    | case1 hi lo hex out hi' lo' hhi hlo ih => exact ih
    | case2 hi lo hex out hnot =>
        intro hec
        exact (Option.some.inj hec).symm
    | case3 hex out hnot =>
        intro hec
        cases hec
  rw [hexToBytes] at h
  split at h
  · exact (Option.some.inj h).symm
  · exact hloop _ _ h

/-- **Decoding untrusted input is safe.** On every character string `decode` returns, with a message,
with `InvalidArgument` or with `DecodeFailure`: it never reads outside an array and never subtracts
below zero. -/
theorem decode_safe (pduHex : Bytes) :
    (∃ message, decode pduHex = .ok message) ∨
      decode pduHex = .error (.returned .invalidArgument) ∨
      decode pduHex = .error (.returned .decodeFailure) := by
  rw [decode_eq, Grammar.pdu]
  rcases hbytes : hexToBytes pduHex with ⟨ec, bytes⟩
  cases ec with
  | some e =>
      obtain rfl : e = .invalidArgument := hexToBytes_ec (show (hexToBytes pduHex).ec = _ by rw [hbytes])
      exact Or.inr (Or.inl rfl)
  | none =>
      cases hparse : Grammar.tpdu bytes with
      | none => exact Or.inr (Or.inr (by simp only [hparse]; rfl))
      | some result => exact Or.inl ⟨result.1, by simp only [hparse]; rfl⟩

end CometTextel
