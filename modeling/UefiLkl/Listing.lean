import UefiLkl.FileProtocol
set_option autoImplicit false

/-!
Reading a directory entry by entry.
-/

namespace UefiLkl
open Interaction

def entrySize (name : Bytes) : Nat := SIZE_OF_EFI_FILE_INFO + unicodeSize name

def IoData.name : IoData → Option (List UInt16)
  | .entry (some info) => some info.fileName
  | _ => Option.none

section Streams

variable {entries : List Bytes} {f : LklIfile} {pos n bufferSize w : Nat}

end Streams

section Listings

variable {w : Nat} {entries : List Bytes} {f : LklIfile} {pos : Nat} {names : List (List UInt16)}

def listedRoot : LklIfile :=
  ⟨1, mountedVolume, 3, O_RDONLY, ⟨fileMode true 0o755, 0, 0, 0, 0⟩, .of [], none, none⟩

end Listings

end UefiLkl
