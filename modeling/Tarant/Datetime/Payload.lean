import Tarant.Datetime
import Tarant.Foundation.LittleEndian

/-!
# The payload of a datetime

An `MP_DATETIME` payload is the seconds in 8 bytes and, where one of them is not zero,
8 bytes more for the nanoseconds, the offset and the zone index, all little-endian.
-/

namespace Tarant.Datetime

open Foundation

/-! ## The functions -/

theorem inI64_signed (n : Nat) : InI64 (signed 8 n) := by
  have h := signed_bounds 8 n
  unfold InI64
  omega

theorem inI16_signed (n : Nat) : InI16 (signed 2 n) := by
  have h := signed_bounds 2 n
  unfold InI16
  omega

def i64FromLe (bytes : Bytes) : I64 := ⟨signed 8 (fromLeBytes bytes), inI64_signed _⟩

def i16FromLe (bytes : Bytes) : I16 := ⟨signed 2 (fromLeBytes bytes), inI16_signed _⟩

theorem i64FromLe_val (bytes : Bytes) : (i64FromLe bytes).val = signed 8 (fromLeBytes bytes) := by
  simp only [i64FromLe]

theorem i16FromLe_val (bytes : Bytes) : (i16FromLe bytes).val = signed 2 (fromLeBytes bytes) := by
  simp only [i16FromLe]

def tail (d : Datetime) : Bytes :=
  leBytes 4 d.nsec ++ (leBytes 2 (complement 2 d.tzOffset) ++ leBytes 2 (complement 2 d.tzIndex))

def toPayload (d : Datetime) : Bytes :=
  leBytes 8 (complement 8 d.epoch) ++
    if d.nsec ≠ 0 ∨ d.tzOffset.val ≠ 0 ∨ d.tzIndex.val ≠ 0 then d.tail else []

def fromPayload (payload : Bytes) : Except DatetimeError Datetime :=
  if payload.length = 8 then .ok (fromUnix (i64FromLe (payload.take 8)) 0)
  else if payload.length = 16 then
    let nsec := fromLeBytes ((payload.drop 8).take 4)
    let tzOffset := i16FromLe ((payload.drop 12).take 2)
    let tzIndex := i16FromLe ((payload.drop 14).take 2)
    if h : nanosPerSecond ≤ nsec then .error ⟨"nanoseconds out of range"⟩
    else .ok ⟨i64FromLe (payload.take 8), nsec, tzOffset, tzIndex, Nat.lt_of_not_le h⟩
  else .error ⟨"payload is not 8 or 16 bytes"⟩

/-! ## Signed integers as bytes -/

theorem i64FromLe_leBytes (n : I64) : i64FromLe (leBytes 8 (complement 8 n)) = n := by
  have h := n.property
  unfold InI64 at h
  refine Subtype.ext ?_
  rw [i64FromLe_val, fromLeBytes_leBytes (complement_lt 8 n)]
  exact signed_complement (by omega)

theorem i16FromLe_leBytes (n : I16) : i16FromLe (leBytes 2 (complement 2 n)) = n := by
  have h := n.property
  unfold InI16 at h
  refine Subtype.ext ?_
  rw [i16FromLe_val, fromLeBytes_leBytes (complement_lt 2 n)]
  exact signed_complement (by omega)

theorem leBytes_i64FromLe {bytes : Bytes} (h : bytes.length = 8) :
    leBytes 8 (complement 8 (i64FromLe bytes)) = bytes := by
  have hlt := fromLeBytes_lt bytes
  rw [h] at hlt
  rw [i64FromLe_val, complement_signed hlt, ← h, leBytes_fromLeBytes]

theorem leBytes_i16FromLe {bytes : Bytes} (h : bytes.length = 2) :
    leBytes 2 (complement 2 (i16FromLe bytes)) = bytes := by
  have hlt := fromLeBytes_lt bytes
  rw [h] at hlt
  rw [i16FromLe_val, complement_signed hlt, ← h, leBytes_fromLeBytes]

/-! ## The round trip -/

theorem fromPayload_short {payload : Bytes} (h : payload.length = 8) :
    fromPayload payload = .ok (fromUnix (i64FromLe payload) 0) := by
  rw [fromPayload, if_pos h, List.take_of_length_le h.le]

theorem fromPayload_long {seconds nsec offset index : Bytes} (hseconds : seconds.length = 8)
    (hnsec : nsec.length = 4) (hoffset : offset.length = 2) (hindex : index.length = 2) :
    fromPayload (seconds ++ (nsec ++ (offset ++ index))) =
      if h : nanosPerSecond ≤ fromLeBytes nsec then .error ⟨"nanoseconds out of range"⟩
      else .ok ⟨i64FromLe seconds, fromLeBytes nsec, i16FromLe offset, i16FromLe index,
        Nat.lt_of_not_le h⟩ := by
  have hlength : (seconds ++ (nsec ++ (offset ++ index))).length = 16 := by simp [*]
  have hfirst : (seconds ++ (nsec ++ (offset ++ index))).take 8 = seconds :=
    List.take_left' hseconds
  have hsecond : ((seconds ++ (nsec ++ (offset ++ index))).drop 8).take 4 = nsec := by
    rw [List.drop_left' hseconds, List.take_left' hnsec]
  have hthird : ((seconds ++ (nsec ++ (offset ++ index))).drop 12).take 2 = offset := by
    rw [← List.append_assoc, List.drop_left' (by simp [*]), List.take_left' hoffset]
  have hfourth : ((seconds ++ (nsec ++ (offset ++ index))).drop 14).take 2 = index := by
    rw [← List.append_assoc, ← List.append_assoc, List.drop_left' (by simp [*]),
      List.take_of_length_le hindex.le]
  simp only [fromPayload, hlength, hfirst, hsecond, hthird, hfourth]
  rfl

theorem fromPayload_toPayload (d : Datetime) : fromPayload d.toPayload = .ok d := by
  have hseconds := i64FromLe_leBytes d.epoch
  have hlength := leBytes_length 8 (complement 8 d.epoch)
  unfold toPayload
  split
  next =>
      have hnsec : fromLeBytes (leBytes 4 d.nsec) = d.nsec :=
        fromLeBytes_leBytes (d.nsec_lt.trans (by decide))
      have hlow : ¬ nanosPerSecond ≤ fromLeBytes (leBytes 4 d.nsec) := by
        rw [hnsec]
        exact Nat.not_le.mpr d.nsec_lt
      rw [tail, fromPayload_long hlength (leBytes_length 4 _) (leBytes_length 2 _)
        (leBytes_length 2 _), dif_neg hlow]
      exact congrArg Except.ok (Datetime.ext hseconds hnsec (i16FromLe_leBytes _)
        (i16FromLe_leBytes _))
  next hzero =>
      obtain ⟨hnsec, hoffset, hindex⟩ : d.nsec = 0 ∧ d.tzOffset.val = 0 ∧ d.tzIndex.val = 0 := by
        simpa only [not_or, not_not] using hzero
      obtain ⟨hepoch, hnsec'⟩ := fromUnix_small d.epoch nanosPerSecond_pos
      rw [List.append_nil, fromPayload_short hlength, hseconds]
      exact congrArg Except.ok (Datetime.ext hepoch (hnsec'.trans hnsec.symm)
        (Subtype.ext hoffset.symm) (Subtype.ext hindex.symm))

theorem tail_zeros_iff (d : Datetime) :
    d.tail = List.replicate 8 0 ↔ ¬ (d.nsec ≠ 0 ∨ d.tzOffset.val ≠ 0 ∨ d.tzIndex.val ≠ 0) := by
  have hzeros : (List.replicate 8 0 : Bytes) =
      leBytes 4 0 ++ (leBytes 2 (complement 2 0) ++ leBytes 2 (complement 2 0)) := by decide
  simp only [not_or, not_not]
  constructor
  · intro h
    rw [hzeros, tail] at h
    obtain ⟨hnsec, hrest⟩ := List.append_inj h (by simp)
    obtain ⟨hoffset, hindex⟩ := List.append_inj hrest (by simp)
    have hinj {n m : I16} (heq : leBytes 2 (complement 2 n) = leBytes 2 (complement 2 m)) :
        n = m := by
      rw [← i16FromLe_leBytes n, heq, i16FromLe_leBytes]
    refine ⟨?_, congrArg Subtype.val (@hinj _ ⟨0, inI16_zero⟩ hoffset),
      congrArg Subtype.val (@hinj _ ⟨0, inI16_zero⟩ hindex)⟩
    have hwidth : d.nsec < 256 ^ 4 := d.nsec_lt.trans (by decide)
    rw [← fromLeBytes_leBytes hwidth, hnsec]
    decide
  · rintro ⟨hnsec, hoffset, hindex⟩
    rw [tail, hnsec, hoffset, hindex, hzeros]

theorem toPayload_eq (d : Datetime) :
    d.toPayload = leBytes 8 (complement 8 d.epoch) ++
      if d.tail = List.replicate 8 0 then [] else d.tail := by
  rw [toPayload, ite_cond_congr (propext (tail_zeros_iff d)), ite_not]

theorem pieces {payload : Bytes} (h : payload.length = 16) :
    ∃ seconds nsec offset index : Bytes, seconds.length = 8 ∧ nsec.length = 4 ∧
      offset.length = 2 ∧ index.length = 2 ∧
      payload = seconds ++ (nsec ++ (offset ++ index)) := by
  refine ⟨payload.take 8, (payload.drop 8).take 4, (payload.drop 12).take 2, payload.drop 14,
    by simp [h], by simp [h], by simp [h], by simp [h], ?_⟩
  have hindex := List.take_append_drop 2 (payload.drop 12)
  have hoffset := List.take_append_drop 4 (payload.drop 8)
  rw [List.drop_drop] at hindex hoffset
  rw [hindex, hoffset, List.take_append_drop]

/-- What is accepted, and what is written for it. -/
def Keeps (payload : Bytes) : Prop :=
  ((∃ d, fromPayload payload = .ok d) ↔ payload.length = 8 ∨
    payload.length = 16 ∧ fromLeBytes ((payload.drop 8).take 4) < 1000000000) ∧
  ∀ d, fromPayload payload = .ok d →
    d.toPayload = if payload.length = 16 ∧ payload.drop 8 = List.replicate 8 0
      then payload.take 8 else payload

theorem keeps_short {payload : Bytes} (h : payload.length = 8) : Keeps payload := by
  have hlong : ¬ (payload.length = 16 ∧ payload.drop 8 = List.replicate 8 0) := by omega
  obtain ⟨hepoch, hnsec⟩ := fromUnix_small (i64FromLe payload) nanosPerSecond_pos
  refine ⟨iff_of_true ⟨_, fromPayload_short h⟩ (.inl h), fun d hd => ?_⟩
  rw [fromPayload_short h] at hd
  obtain rfl := Except.ok.inj hd
  have htail : (fromUnix (i64FromLe payload) 0).tail = List.replicate 8 0 := by
    rw [tail_zeros_iff, hnsec]
    exact fun h => h.elim (· rfl) fun h => h.elim (· rfl) (· rfl)
  rw [if_neg hlong, toPayload_eq, if_pos htail, hepoch, leBytes_i64FromLe h, List.append_nil]

theorem keeps_long {payload : Bytes} (h : payload.length = 16) : Keeps payload := by
  obtain ⟨seconds, nsec, offset, index, hseconds, hnsec, hoffset, hindex, rfl⟩ := pieces h
  have hsecond : (seconds ++ (nsec ++ (offset ++ index))).drop 8 = nsec ++ (offset ++ index) :=
    List.drop_left' hseconds
  have hfrom := fromPayload_long hseconds hnsec hoffset hindex
  by_cases hnanos : nanosPerSecond ≤ fromLeBytes nsec
  · rw [dif_pos hnanos] at hfrom
    unfold Keeps
    rw [hfrom, hsecond, List.take_left' hnsec]
    refine ⟨iff_of_false ?_ ?_, ?_⟩
    · rintro ⟨d, hd⟩
      cases hd
    · unfold nanosPerSecond at hnanos
      omega
    · intro d hd
      cases hd
  · rw [dif_neg hnanos] at hfrom
    unfold Keeps
    rw [hfrom, hsecond, List.take_left' hnsec, List.take_left' hseconds]
    refine ⟨iff_of_true ⟨_, rfl⟩ (.inr ⟨h, Nat.lt_of_not_le hnanos⟩), fun d hd => ?_⟩
    obtain rfl := Except.ok.inj hd
    have htail : tail ⟨i64FromLe seconds, fromLeBytes nsec, i16FromLe offset, i16FromLe index,
        Nat.lt_of_not_le hnanos⟩ = nsec ++ (offset ++ index) := by
      rw [tail, leBytes_i16FromLe hoffset, leBytes_i16FromLe hindex, ← hnsec, leBytes_fromLeBytes]
    rw [toPayload_eq, htail, leBytes_i64FromLe hseconds]
    by_cases hzeros : nsec ++ (offset ++ index) = List.replicate 8 0
    · rw [if_pos hzeros, if_pos ⟨h, hzeros⟩, List.append_nil]
    · rw [if_neg hzeros, if_neg fun hboth => hzeros hboth.2]

/--
Datetimes round-trip in all their fields.  Accepted are 8 bytes, and 16 with the
nanoseconds below a second; written again they are the same bytes, or the first 8 where
the others are zero.
-/
theorem payload_is_lossless :
    (∀ d : Datetime, d.nsec < 1000000000 ∧ fromPayload d.toPayload = .ok d) ∧
    ∀ payload,
      ((∃ d, fromPayload payload = .ok d) ↔ payload.length = 8 ∨
        payload.length = 16 ∧ fromLeBytes ((payload.drop 8).take 4) < 1000000000) ∧
      ∀ d, fromPayload payload = .ok d →
        d.toPayload = if payload.length = 16 ∧ payload.drop 8 = List.replicate 8 0
          then payload.take 8 else payload := by
  refine ⟨fun d => ⟨d.nsec_lt, fromPayload_toPayload d⟩, fun payload => ?_⟩
  by_cases hshort : payload.length = 8
  · exact keeps_short hshort
  · by_cases hlong : payload.length = 16
    · exact keeps_long hlong
    · have hfrom : fromPayload payload = .error ⟨"payload is not 8 or 16 bytes"⟩ := by
        rw [fromPayload, if_neg hshort, if_neg hlong]
      rw [hfrom]
      refine ⟨iff_of_false ?_ (by omega), ?_⟩
      · rintro ⟨d, hd⟩
        cases hd
      · intro d hd
        cases hd

end Tarant.Datetime
