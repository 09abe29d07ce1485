import LoopTable.Fault

/-!
# Why a resolution fails

`ResolutionError` lists the causes for which the destinations of an image cannot be computed,
`ResolutionError.message` words them, and `ResolutionError.address?` gives the instruction that a
cause points at; `ResolutionError.address?_eq_some_iff` says which causes have one.
-/

namespace LoopTable

/-- The cause of a failed resolution. -/
inductive ResolutionError
  /-- The table has fewer words than the image has instructions. -/
  | tableTooSmall (imageSize tableSize : UInt64)
  /-- A loop is closed that was never opened, or opened and never closed. -/
  | unmatched (address : Option UInt64)
  /-- A destination does not fit into a word. -/
  | unencodable (address destination : UInt64)
  /-- An access to the image or to the table failed. -/
  | memory (fault : Fault)
  /-- There is no memory block of this name. -/
  | missingBlock (name : String)
  /-- One block is asked for as image and as table. -/
  | sharedBlock (name : String)
  /-- The caller asked to stop, which is no failure. -/
  | cancelled
  deriving DecidableEq

namespace ResolutionError

/-- The wording of a cause. -/
def message : ResolutionError → String
  | tableTooSmall imageSize tableSize =>
    let image := imageSize.toNat
    let table := tableSize.toNat
    s!"La mémoire bdest ({table} bytes) est trop petite pour la mémoire rom ({image} instructions)"
  | unmatched (some address) =>
    let digits := Numeral.hex address.toNat
    s!"Unmatched branch at address 0x{digits}"
  | unmatched none => "Unmatched branch"
  | unencodable address destination =>
    let place := Numeral.hex address.toNat
    let value := Numeral.hex destination.toNat
    s!"Destination 0x{value} non encodable sur 16 bits (instruction 0x{place})"
  | memory fault => "Erreur d'accès mémoire: " ++ fault.message
  | missingBlock name => s!"Bloc mémoire introuvable: {name}"
  | sharedBlock name => s!"Le bloc mémoire {name} ne peut pas être à la fois rom et bdest"
  | cancelled => "Analyse annulée"

/-- The address of the instruction at fault, where it is known. -/
def address? : ResolutionError → Option UInt64
  | unmatched address => address
  | unencodable address _ => some address
  | _ => none

/-- Only these two causes point at an instruction, and they point at the one that they name. -/
theorem address?_eq_some_iff {cause : ResolutionError} {address : UInt64} :
    cause.address? = some address ↔
      cause = .unmatched (some address) ∨
        ∃ destination, cause = .unencodable address destination := by
  constructor
  · intro h
    cases cause with
    | unmatched =>
      obtain rfl : _ = some address := h
      exact .inl rfl
    | unencodable place destination =>
      obtain rfl := Option.some.inj h
      exact .inr ⟨destination, rfl⟩
    | tableTooSmall | memory | missingBlock | sharedBlock | cancelled => cases h
  · rintro (rfl | ⟨destination, rfl⟩)
    · rfl
    · rfl

/-- Whether the cause is a request to stop. -/
def isCancelled : ResolutionError → Bool
  | cancelled => true
  | _ => false

end ResolutionError

end LoopTable
