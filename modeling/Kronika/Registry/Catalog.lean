/-
The type ids of the registry.

A contract describes one physical section layout.  Here a contract is its type id,
which is all that the writer of a finished segment asks of it.
-/
import Kronika.Format.Catalog

namespace Kronika.Registry

open Format

def maxSectionRows : Nat := 2 ^ 32 - 1
def sectionWriteBatchRows : Nat := 65536
def maxSectionBytes : Nat := 1024 * 1024 * 1024

/-- Every type id known to this build, in registry order. -/
def registry : List Nat :=
  [1021001, 1021002, 1021003, 1021004, 1100001, 1101001, 1102001, 1103001, 1104001, 1105001,
    1106001, 1107001, 1108001, 1109001, 1110001, 1111001, 1112002, 1113001, 1121001, 1122001,
    1123001, 1124002, 1200001, 1201001, 1201002, 1201003, 1202001, 1202002, 1202003, 1203002,
    1203003, 1204001, 1205001, 1205002, 1206001, 1207001, 1208001, 1209001, 1210001, 1114001,
    1115001, 1116001, 1117001, 1118001, 1119001, 1120001, 1019001, 1008001, 1006001, 1006002,
    1010001, 1005004, 1005003, 1005002, 1005001, 1009001, 1009002, 1001004, 1001002, 1001001,
    1012004, 1012005, 1012006, 1014004, 1014003, 1013008, 1013007, 1013006, 1013005, 1004001,
    1003001, 1018001, 1015001, 1016001, 1017001, 1017002, 1002006, 1002005, 1002004, 1002003,
    1002002, 1002001, 1007001, 1007002, 1020001, 1011001, 1011002, 2001001, 2002001, 2003001,
    2004001, 2005002, 2006001, 2007001, 2100001, 2100002]

def contract (typeId : Nat) : Option Nat := registry.find? fun id => id == typeId

theorem contract_isSome {typeId : Nat} : (contract typeId).isSome ↔ typeId ∈ registry := by
  simp [contract]

theorem lt_of_mem_registry : ∀ typeId ∈ registry, typeId < dictStringsTypeId := by
  decide

end Kronika.Registry
