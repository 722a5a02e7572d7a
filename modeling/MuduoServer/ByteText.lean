import Mathlib.Data.List.Basic

/-!
Texts as rows of bytes.
-/
namespace MuduoServer

abbrev Bytes := List UInt8

def bytes (s : String) : Bytes := s.toList.map fun c => UInt8.ofNat c.toNat

def byte (c : Char) : UInt8 := UInt8.ofNat c.toNat

end MuduoServer
