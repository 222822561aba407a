import WarringServer.DBServer.QueryTask
import WarringServer.GameServer.SceneManager
import WarringServer.Lib.Decimal
import Mathlib.Data.List.TakeWhile

/-!
# Service addresses, from one server to another

A game server and a gateway register under a key that ends with their ip and port, a
dedicated server under the ip and port alone. `getServiceAddress` of the DB server takes a
key apart at every colon and reads the last two parts, so that it does not depend on what
is in front of them.

* `stoi_text` — `std::stoi` reads what `std::to_string` writes;
* `keyParts_append` — the parts of a key with an ip and a port at its end;
* `serviceAddress_round_trip` — both kinds of key give ip and port back.
-/

namespace WarringServer.DBServer

open Message GameServer

/-- `keyWithAddress` of `registerService`. -/
def keyWithAddress (keyPrefix mIP : Bytes) (mPort : UInt16) : Bytes :=
  keyPrefix ++ literal ":" ++ mIP ++ literal ":" ++ decimal mPort.toNat

section

variable {n : Nat} {ip : Bytes}

theorem decimal_eq_text (n : Nat) : decimal n = Decimal.text n := by
  show (Nat.repr n).toList.map _ = _
  rw [Nat.toList_repr]
  rfl

theorem not_colon_of_mem_text : (58 : UInt8) ∉ Decimal.text n := by
  intro h
  exact absurd (Decimal.isDigit_of_mem_text h).2 (by decide)

/-- A digit, as `stoi` looks for it. -/
theorem isDigit_iff {c : UInt8} : (48 ≤ c ∧ c ≤ 57) ↔ Decimal.IsDigit c := by
  rw [UInt8.le_iff_toNat_le, UInt8.le_iff_toNat_le]
  rfl

theorem stoi_text (h : n < 2 ^ 31) : stoi (Decimal.text n) = .ok (.ofInt _ n) := by
  obtain ⟨c, digits, hText⟩ := List.exists_cons_of_ne_nil (Decimal.text_ne_nil (n := n))
  have hDigits : ∀ d ∈ c :: digits, Decimal.IsDigit d := by
    rw [← hText]
    exact fun d hd => Decimal.isDigit_of_mem_text hd
  have hValue : Decimal.value (c :: digits) = n := by
    rw [← hText, Decimal.value_text]
  obtain ⟨hLow, hHigh⟩ := hDigits c List.mem_cons_self
  -- no white space and no sign in front of the digits
  have hSpace : (c :: digits).dropWhile (fun c => c = 32 ∨ (9 ≤ c ∧ c ≤ 13)) = c :: digits := by
    refine List.dropWhile_cons_of_neg ?_
    rw [decide_eq_true_iff, UInt8.le_iff_toNat_le, UInt8.le_iff_toNat_le, ← UInt8.toNat_inj]
    simp only [UInt8.reduceToNat]
    omega
  have hAll : (c :: digits).takeWhile (fun c => 48 ≤ c ∧ c ≤ 57) = c :: digits :=
    List.takeWhile_eq_self_iff.mpr fun d hd => decide_eq_true (isDigit_iff.mpr (hDigits d hd))
  have hFold : (c :: digits).foldl (fun n c => 10 * n + (c.toNat - 48)) 0 = n := hValue
  have hRange : -(2 ^ 31) ≤ (n : Int) ∧ (n : Int) < 2 ^ 31 := by omega
  rw [hText]
  unfold stoi
  rw [hSpace]
  dsimp only
  split
  · rename_i str hStr
    rw [(List.cons.inj hStr).1] at hLow
    exact absurd hLow (by decide)
  · rename_i str hStr
    rw [(List.cons.inj hStr).1] at hLow
    exact absurd hLow (by decide)
  · rw [hAll, hFold, if_neg (List.cons_ne_nil c digits)]
    exact if_pos hRange

/-- The last two parts of a key that ends with an ip and a port. -/
theorem keyParts_append (keyPrefix : Bytes) (hIp : (58 : UInt8) ∉ ip) :
    keyParts (keyPrefix ++ 58 :: (ip ++ 58 :: Decimal.text n)) =
      keyPrefix.splitOn 58 ++ [ip, Decimal.text n] := by
  have hSplit : (keyPrefix ++ 58 :: (ip ++ 58 :: Decimal.text n)).splitOn 58 =
      keyPrefix.splitOn 58 ++ [ip, Decimal.text n] := by
    rw [List.splitOn_append_cons_self, List.splitOn_append_cons_self,
      List.splitOn_eq_singleton hIp, List.splitOn_eq_singleton not_colon_of_mem_text]
    rfl
  unfold keyParts
  dsimp only
  rw [hSplit, if_neg]
  rintro ⟨-, hLast⟩
  simp [Decimal.text_ne_nil] at hLast

/-- The parts of an ip and a port alone. -/
theorem keyParts_pair (hIp : (58 : UInt8) ∉ ip) :
    keyParts (ip ++ 58 :: Decimal.text n) = [ip, Decimal.text n] := by
  have hSplit : (ip ++ 58 :: Decimal.text n).splitOn 58 = [ip, Decimal.text n] := by
    rw [List.splitOn_append_cons_self, List.splitOn_eq_singleton hIp,
      List.splitOn_eq_singleton not_colon_of_mem_text]
    rfl
  unfold keyParts
  dsimp only
  rw [hSplit, if_neg]
  rintro ⟨-, hLast⟩
  simp [Decimal.text_ne_nil] at hLast

/-- What `getServiceAddress` makes of the last two parts. -/
theorem getServiceAddress_of_parts {key : Bytes} {port : UInt16} (parts : List Bytes)
    (hKey : key ≠ []) (hParts : keyParts key = parts ++ [ip, Decimal.text port.toNat]) :
    ∃ v : CInt, v.toInt = port.toNat ∧ getServiceAddress key = .ok (some (ip, v)) := by
  have hRange := port.toNat_lt
  refine ⟨.ofInt _ port.toNat, ?_, ?_⟩
  · rw [BitVec.toInt_ofInt]
    exact Int.bmod_eq_of_le (by omega) (by omega)
  · unfold getServiceAddress
    rw [if_neg hKey, hParts, List.reverse_append]
    show (stoi (Decimal.text port.toNat)).map _ = _
    rw [stoi_text (by omega)]
    rfl

end

/-- Neither what is in front of the ip nor the number of its colons matters. -/
theorem serviceAddress_round_trip (keyPrefix ip : Bytes) (port : UInt16)
    (hIp : (58 : UInt8) ∉ ip) :
    (∃ v : CInt, v.toInt = port.toNat ∧
      getServiceAddress (keyWithAddress keyPrefix ip port) = .ok (some (ip, v))) ∧
    ∃ v : CInt, v.toInt = port.toNat ∧
      getServiceAddress (address ip port.toNat) = .ok (some (ip, v)) := by
  have hKey : keyWithAddress keyPrefix ip port =
      keyPrefix ++ 58 :: (ip ++ 58 :: Decimal.text port.toNat) := by
    rw [keyWithAddress, decimal_eq_text]
    simp [literal]
  have hAddress : address ip port.toNat = ip ++ 58 :: Decimal.text port.toNat := by
    rw [address, decimal_eq_text]
    simp
  rw [hKey, hAddress]
  refine ⟨getServiceAddress_of_parts _ (by simp) (keyParts_append keyPrefix hIp), ?_⟩
  exact getServiceAddress_of_parts [] (by simp) (keyParts_pair hIp)

theorem serviceAddress_round_trip_game :
    (58 : UInt8) ∉ literal "10.0.0.1" ∧
    (∃ v : CInt, v.toInt = 7777 ∧
      getServiceAddress (keyWithAddress (literal "Warring:GameServ_") (literal "10.0.0.1") 7777) =
        .ok (some (literal "10.0.0.1", v))) ∧
    ∃ v : CInt, v.toInt = 7777 ∧
      getServiceAddress (address (literal "10.0.0.1") 7777) =
        .ok (some (literal "10.0.0.1", v)) :=
  ⟨by decide, serviceAddress_round_trip (literal "Warring:GameServ_") (literal "10.0.0.1") 7777
    (by decide)⟩

end WarringServer.DBServer
