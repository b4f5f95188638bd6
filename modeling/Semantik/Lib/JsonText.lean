import Mathlib.Algebra.BigOperators.Group.List.Basic
import Mathlib.Algebra.GroupWithZero.Nat

/-!
# JSON text

Compact arrays and objects over already encoded parts, and how long they are.
-/

namespace JsonText

def comma : UInt8 := 0x2C

def colon : UInt8 := 0x3A

def commaSeparated : List (List UInt8) → List UInt8
  | [] => []
  | [part] => part
  | part :: parts => part ++ comma :: commaSeparated parts

def array (items : List (List UInt8)) : List UInt8 := 0x5B :: commaSeparated items ++ [0x5D]

def object (members : List (List UInt8 × List UInt8)) : List UInt8 :=
  0x7B :: commaSeparated (members.map (fun m => m.1 ++ colon :: m.2)) ++ [0x7D]

theorem length_commaSeparated {parts : List (List UInt8)} (h : parts ≠ []) :
    (commaSeparated parts).length + 1 = (parts.map (fun part => part.length + 1)).sum := by
  induction parts with
  | nil => exact absurd rfl h
  | cons part parts ih =>
      cases parts with
      | nil => simp [commaSeparated]
      | cons part' parts =>
          have htail := ih (by simp)
          simp only [commaSeparated, List.length_append, List.length_cons, List.map_cons,
            List.sum_cons] at htail ⊢
          omega

theorem length_array {items : List (List UInt8)} (h : items ≠ []) :
    (array items).length = (items.map (fun item => item.length + 1)).sum + 1 := by
  rw [← length_commaSeparated h]
  simp [array]

theorem length_object {members : List (List UInt8 × List UInt8)} (h : members ≠ []) :
    (object members).length =
      (members.map (fun m => m.1.length + m.2.length + 2)).sum + 1 := by
  have hne : members.map (fun m => m.1 ++ colon :: m.2) ≠ [] := by simpa using h
  have hlen := length_commaSeparated hne
  have hsum : (members.map (fun m => m.1.length + m.2.length + 2)).sum =
      ((members.map (fun m => m.1 ++ colon :: m.2)).map (fun part => part.length + 1)).sum := by
    rw [List.map_map]
    congr 1
    apply List.map_congr_left
    intro m _
    simp
    omega
  rw [hsum, ← hlen]
  simp [object]

end JsonText
