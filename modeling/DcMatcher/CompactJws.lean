import DcMatcher.SignedRequests

/-!
# The compact serialization of a JWS

`compact_payload` splits at most into four pieces, however many dots there are.

Result: `compactPayload_exact`: it accepts exactly two dots with something before each of them
and the encoding of its result between them, and which of the two errors the rest is.
-/

namespace DcMatcher

theorem splitn_toList (jws : String) (h : jws.toList.count '.' = 2) :
    splitn '.' 4 jws.toList = split '.' jws := by
  refine (splitn_eq_splitOn '.' 3 jws.toList).2 ?_
  rw [length_splitOn, h]
  decide

/-- Three pieces are two dots. -/
theorem length_split (sep : Char) (s : String) :
    (split sep s).length = s.toList.count sep + 1 := by
  unfold split
  rw [List.length_map, length_splitOn]

/-- Any other number of dots, and there are not three pieces. -/
theorem compactPayload_of_count {jws : String} (h : jws.toList.count '.' ≠ 2) :
    compactPayload jws = .error .notACompactJws := by
  have hlength : (splitn '.' 4 jws.toList).length ≠ 3 := by
    rw [(splitn_eq_splitOn '.' 3 jws.toList).1, length_splitOn]
    omega
  unfold compactPayload
  split
  · next hpieces =>
    rw [hpieces] at hlength
    exact absurd rfl hlength
  · rfl

/-- The empty header and the empty payload. -/
theorem compactPayload_of_split {jws header payload signature : String}
    (h : split '.' jws = [header, payload, signature]) :
    compactPayload jws =
      if header = "" ∨ payload = "" then .error .notACompactJws
      else ((Base64url.decode payload).map Except.ok).getD (.error .payloadNotBase64url) := by
  have hdots : jws.toList.count '.' = 2 := by
    have hlength := length_split '.' jws
    rw [h] at hlength
    exact (Nat.succ.inj hlength).symm
  have hempty : (header.isEmpty || payload.isEmpty) = true ↔ header = "" ∨ payload = "" := by
    rw [Bool.or_eq_true, String.isEmpty_iff, String.isEmpty_iff]
  unfold compactPayload
  rw [splitn_toList jws hdots, h]
  simp only [hempty]
  congr 1
  cases Base64url.decode payload with
  | none => rfl
  | some bytes => rfl

/-- Exactly two dots, something before each, and between them the canonical encoding of the
bytes, at most 256 KiB of it. Without the dots or what is before them it is no compact JWS, and
what is left has a payload that is not base64url. -/
theorem compactPayload_exact (jws : String) :
    (∀ bytes, compactPayload jws = .ok bytes ↔
      jws.toList.count '.' = 2 ∧ "" ∉ (split '.' jws).take 2 ∧
        (split '.' jws)[1]? = some (Base64url.encode bytes) ∧
        byteLen (Base64url.encode bytes) ≤ 256 * 1024) ∧
    (compactPayload jws = .error .notACompactJws ↔
      jws.toList.count '.' ≠ 2 ∨ "" ∈ (split '.' jws).take 2) ∧
    (compactPayload jws = .error .payloadNotBase64url ↔
      jws.toList.count '.' = 2 ∧ "" ∉ (split '.' jws).take 2 ∧
        ¬ ∃ bytes, (split '.' jws)[1]? = some (Base64url.encode bytes) ∧
          byteLen (Base64url.encode bytes) ≤ 256 * 1024) := by
  by_cases hdots : jws.toList.count '.' = 2
  · have hlength := length_split '.' jws
    rw [hdots] at hlength
    obtain ⟨header, payload, signature, hsplit⟩ := List.length_eq_three.mp hlength
    have hdecoded : ∀ bytes, Base64url.decode payload = some bytes ↔
        payload = Base64url.encode bytes ∧ byteLen (Base64url.encode bytes) ≤ 256 * 1024 :=
      fun bytes => Base64url.decodeWithLimit_eq_encode
    rw [compactPayload_of_split hsplit, hsplit]
    simp only [hdots, ne_eq, not_true_eq_false, true_and, false_or, List.take_succ_cons,
      List.take_zero, List.mem_cons, List.not_mem_nil, or_false, List.getElem?_cons_succ,
      List.getElem?_cons_zero, Option.some.injEq, ← hdecoded]
    by_cases hempty : header = "" ∨ payload = ""
    · rw [if_pos hempty]
      simp [eq_comm (a := ""), hempty]
    · obtain ⟨hheader, hpayload⟩ := not_or.mp hempty
      rw [if_neg hempty]
      cases hdecode : Base64url.decode payload with
      | none => simp [eq_comm (a := ""), hheader, hpayload]
      | some bytes => simp [eq_comm (a := ""), hheader, hpayload]
  · rw [compactPayload_of_count hdots]
    simp [hdots]

/-- Nothing after the second dot is the unsecured token, and a fifth segment is one too many. -/
example : compactPayload "e30.aGk." = .ok [0x68, 0x69] ∧
    compactPayload "e30.aGk..." = .error .notACompactJws := by decide

end DcMatcher
