import LoopTable.Proofs.Resolution.Counting
import LoopTable.Proofs.Resolution.Coverage
import LoopTable.Proofs.Resolution.Footprint

/-!
# Numbers of a scan

A scan computes with numbers of 64 bits, which wrap, and sends words of 16 bits, which lose what
does not fit into them. This file says that neither ever happens. The check made at the start is
exact although it halves the size of the table (`Word.div_size_lt_iff`). All bounds follow from it,
since every open loop starts before the address in hand.

* `Scan.InRange` lists the numbers in use when an address is visited, and says that each is what it
  would be without a bound. Every visit of a scan begins so (`Went.inRange`).
* `SendsWord` says of a write that it sends the word of an address whole, to a slot inside a size.
  Every write of a scan does (`sendsWord_of_put`).
* A scan reads the addresses of its image from zero on and no others (`reads_resolve`).
* A fault is the answer to an access inside of what the regions claim (`refused_of_memory`). So
  regions that serve what they claim, as plain bytes and memory blocks do, give no fault.
-/

namespace LoopTable

/-! ## Numbers of a visit -/

/-- A destination that passes the check for words is not cut off. -/
theorem toNat_toUInt16_of_not_gt {destination : UInt64}
    (h : ¬ destination > Word.maxDestination) :
    destination.toUInt16.toNat = destination.toNat := by
  have hle : destination.toNat ≤ 65535 := by
    rw [gt_iff_lt, UInt64.not_lt, UInt64.le_iff_toNat_le] at h
    exact h
  rw [UInt64.toNat_toUInt16]
  omega

/-- No number that is in use when the address `n` is visited has wrapped or been cut off. -/
structure Scan.InRange {σ μ : Type} (s : Scan σ μ) (n : Nat) : Prop where
  /-- The address itself. -/
  address : (UInt64.ofNat n).toNat = n
  /-- The address behind it. -/
  next : (UInt64.ofNat n + 1).toNat = n + 1
  /-- The offset of its word. -/
  offset : (UInt64.ofNat n * Word.size).toNat = 2 * n
  /-- The open loops start before it. -/
  pending_lt : ∀ o ∈ s.pending.addresses, o.toNat < n
  /-- The offset of the word of each of them. -/
  pending_offset : ∀ o ∈ s.pending.addresses, (o * Word.size).toNat = 2 * o.toNat
  /-- The number of loops, with the one that may be closed here. -/
  pairs : (s.pairs + 1).toNat = s.pairs.toNat + 1
  /-- The destinations that may be sent, where they pass the check for words. -/
  word : ∀ destination, destination ∈ s.pending.addresses ∨ destination = .ofNat n + 1 →
    ¬ destination > Word.maxDestination → destination.toUInt16.toNat = destination.toNat

section Run

variable {σ μ : Type} {region : Readable} {w : Writable σ} {m : Monitor μ} {table : σ} {monitor : μ}
  {bytes : List UInt8} {opened : List Nat} {closed : List (Nat × Nat)} {s s' : Scan σ μ}

/-- What lies on the stack is an open loop. -/
theorem Went.exists_of_mem_pending (h : Went region w m table monitor bytes opened closed s)
    {a : UInt64} (ha : a ∈ s.pending.addresses) : ∃ o ∈ opened, a = .ofNat o := by
  rw [h.addresses_eq, List.mem_toArray] at ha
  obtain ⟨o, ho, rfl⟩ := List.mem_map.1 ha
  exact ⟨o, List.mem_reverse.1 ho, rfl⟩

/-- No more loops have been counted than bytes read. -/
theorem Went.toNat_pairs_le (h : Went region w m table monitor bytes opened closed s) :
    s.pairs.toNat ≤ bytes.length := by
  rw [h.toNat_pairs, h.course.length_closed]
  exact List.count_le_length

/-- When the table has a word for each instruction, a visit begins with all numbers in range. -/
theorem Went.inRange (h : Went region w m table monitor bytes opened closed s)
    (hlt : bytes.length < region.size.toNat)
    (hroom : 2 * region.size.toNat < UInt64.size) : s.InRange bytes.length := by
  have hpending : ∀ o ∈ s.pending.addresses, o.toNat < bytes.length ∧
      (o * Word.size).toNat = 2 * o.toNat := by
    intro a ha
    obtain ⟨o, ho, rfl⟩ := h.exists_of_mem_pending ha
    have hoc := h.course.opened_lt o ho
    rw [Word.toNat_offset (by omega), UInt64.toNat_ofNat_of_lt' (by omega)]
    exact ⟨hoc, rfl⟩
  refine ⟨?_, ?_, ?_, fun o ho => (hpending o ho).1, fun o ho => (hpending o ho).2, ?_, ?_⟩
  · exact UInt64.toNat_ofNat_of_lt' (by omega)
  · rw [ofNat_succ]
    exact UInt64.toNat_ofNat_of_lt' (by omega)
  · exact Word.toNat_offset (by omega)
  · have hpairs := h.toNat_pairs_le
    rw [UInt64.toNat_add, UInt64.toNat_one]
    show (s.pairs.toNat + 1) % UInt64.size = _
    exact Nat.mod_eq_of_lt (by omega)
  · intro destination _ hnear
    exact toNat_toUInt16_of_not_gt hnear

/-! ## Words sent -/

/-- A write sends a value whole to the slot of an address, which lies inside some size. -/
structure SendsWord (size : Nat) (put : UInt64 × List UInt8) (address value : Nat) : Prop where
  /-- The value fits into a word. -/
  lt : value < 65536
  /-- It is sent to twice the address. -/
  offset_eq : put.1.toNat = 2 * address
  /-- Its low byte is sent first, then its high byte. -/
  bytes_eq : put.2 = [UInt8.ofNat (value % 256), UInt8.ofNat (value / 256)]
  /-- The slot lies inside. -/
  inside : put.1.toNat + put.2.length ≤ size

theorem sendsWord_wordPut {size a v : Nat} (hsize : size < UInt64.size) (ha : 2 * a + 2 ≤ size)
    (hv : v < 65536) : SendsWord size (Scan.wordPut (.ofNat a) (.ofNat v)) a v where
  lt := hv
  offset_eq := Word.toNat_offset (by omega)
  bytes_eq := Bytes.encode_ofNat hv
  inside := by
    show (UInt64.ofNat a * Word.size).toNat + 2 ≤ size
    rw [Word.toNat_offset (by omega)]
    exact ha

/-- A write sends one of the two words of a loop. -/
def SendsWordOf (size : Nat) (put : UInt64 × List UInt8) (opening closing : Nat) : Prop :=
  SendsWord size put closing opening ∨ SendsWord size put opening (closing + 1)

/-- Whatever happens, every write of a scan sends a word of a loop whole, to a slot inside of what
the table claims. -/
theorem sendsWord_of_put {put : UInt64 × List UInt8}
    (hput : put ∈ (resolve region w m table monitor).puts) :
    ∃ o c, region.LoopEnds o c ∧ SendsWordOf (w.size table).toNat put o c := by
  have hroom := resolve_fits hput
  have hsize := (w.size table).toNat_lt_size
  obtain ⟨o, c, a, v, hends, hword, rfl⟩ := exists_word_of_put hput
  have hlt := hends.lt
  have hinside := hends.inside
  refine ⟨o, c, hends, ?_⟩
  cases hword with
  | ofEnd hnear => exact Or.inl (sendsWord_wordPut hsize (by omega) hnear)
  | ofStart hnear => exact Or.inr (sendsWord_wordPut hsize (by omega) hnear)

/-! ## Bytes asked for -/

/-- Whatever happens, a scan asks for the bytes of its image from the first one on, each once. -/
theorem reads_resolve (region : Readable) (w : Writable σ) (m : Monitor μ) (table : σ)
    (monitor : μ) :
    ∃ n ≤ region.size.toNat,
      (resolve region w m table monitor).reads = (List.range n).map UInt64.ofNat := by
  have hended := ended_resolve region w m table monitor
  generalize resolve region w m table monitor = outcome at hended ⊢
  cases hended with
  | tooSmall => exact ⟨0, Nat.zero_le _, rfl⟩
  | leftOpen _ hwent | finished _ hwent =>
    exact ⟨_, hwent.length_le, (Scan.reads_logged ..).trans hwent.reads_eq⟩
  | @stopped bytes opened closed s s' cause _ hwent hlt hvisited =>
    by_cases hcause : cause = .cancelled
    · subst hcause
      refine ⟨_, hwent.length_le, Eq.trans ?_ hwent.reads_eq⟩
      cases hvisited with
      | cancelled => exact Scan.reads_polled ..
      | closed _ _ _ hsettled => cases hsettled
    · refine ⟨_, hlt, ?_⟩
      rw [map_ofNat_range_succ, ← hwent.reads_eq]
      exact (hvisited.reads_eq hcause).2

/-- No byte is asked for outside of what the image claims. -/
theorem lt_size_of_read {offset : UInt64}
    (h : offset ∈ (resolve region w m table monitor).reads) : offset < region.size := by
  obtain ⟨n, hn, hreads⟩ := reads_resolve region w m table monitor
  rw [hreads] at h
  obtain ⟨a, ha, rfl⟩ := List.mem_map.1 h
  have halt := Nat.lt_of_lt_of_le (List.mem_range.1 ha) hn
  have hsize := region.size.toNat_lt_size
  rw [UInt64.lt_iff_toNat_lt, UInt64.toNat_ofNat_of_lt' (by omega)]
  exact halt

/-! ## Accesses refused -/

/-- An access inside of what the regions claim is refused: a byte is not answered, or a write is not
accepted after some others. -/
inductive Refused (region : Readable) (w : Writable σ) (table : σ) (fault : Fault) : Prop
  /-- A byte is not answered. -/
  | read {offset : UInt64} : offset < region.size → region.read offset = .error fault →
      Refused region w table fault
  /-- A write is not accepted. -/
  | put {puts : List (UInt64 × List UInt8)} {offset : UInt64} {data : List UInt8} :
      offset.toNat + data.length ≤ (w.size table).toNat →
      (w.put offset data (w.replay table puts)).1 = .error fault →
      Refused region w table fault

/-- The end of a loop that gives a fault has sent a word that is refused. -/
theorem Settled.refused {o c : Nat} {fault : Fault}
    (h : Settled w (.ofNat o) (.ofNat c) s (.error (.memory fault) s'))
    (hs : s.Answered region w table) (hoc : o < c) (hc : 2 * c + 2 ≤ (w.size table).toNat) :
    Refused region w table fault := by
  have hsize := (w.size table).toNat_lt_size
  have hinside : ∀ {a : Nat} (destination : UInt64), a ≤ c →
      (UInt64.ofNat a * Word.size).toNat + (Word.encode destination.toUInt16).length ≤
        (w.size table).toNat := by
    intro a destination ha
    rw [Word.toNat_offset (by omega), Word.length_encode]
    omega
  cases h with
  | faultAtEnd _ hfault =>
    rw [Scan.wordAnswer, hs.table_eq] at hfault
    exact .put (hinside _ (Nat.le_refl c)) hfault
  | faultAtStart _ hend _ hfault =>
    rw [Scan.wordAnswer, (hs.wordSent hend).table_eq] at hfault
    exact .put (hinside _ (Nat.le_of_lt hoc)) hfault

/-- The fault that a scan ends with is the answer to an access inside of what the regions claim. -/
theorem refused_of_memory {fault : Fault}
    (hresult : (resolve region w m table monitor).result = .error (.memory fault)) :
    Refused region w table fault := by
  have hended := ended_resolve region w m table monitor
  generalize resolve region w m table monitor = outcome at hended hresult
  cases hended with
  | tooSmall | leftOpen | finished => cases hresult
  | @stopped bytes opened closed s s' cause hroom hwent hlt hvisited =>
    cases hresult
    rw [Word.div_size_lt_iff] at hroom
    have hsize := (w.size table).toNat_lt_size
    cases hvisited with
    | unreadable _ hread =>
      refine .read ?_ hread
      rw [UInt64.lt_iff_toNat_lt, UInt64.toNat_ofNat_of_lt' (by omega)]
      exact hlt
    | closed _ hread hpeek hsettled =>
      obtain ⟨o, rest, rfl, rfl⟩ := hwent.eq_cons_of_peek? hpeek
      exact hsettled.refused (hwent.answered.asked m hread).taken
        (hwent.course.opened_lt o (List.mem_cons_self ..)) (by omega)

end Run

/-! ## Regions that serve what they claim -/

/-- A region answers at every offset inside the size it claims. -/
def Readable.Serves (region : Readable) : Prop :=
  ∀ offset < region.size, ∃ byte, region.read offset = .ok byte

/-- Whatever has been written to it, a region accepts every write inside the size it claims. -/
def Writable.Serves {σ : Type} (w : Writable σ) (table : σ) : Prop :=
  ∀ puts offset data, offset.toNat + data.length ≤ (w.size table).toNat →
    (w.put offset data (w.replay table puts)).1 = .ok ()

theorem Readable.serves_ofBytes (bytes : Bytes) : (Readable.ofBytes bytes).Serves := by
  intro offset hoffset
  -- The size that is claimed is the true one or, if that has too many bits, less.
  have hclaimed : (UInt64.ofNat bytes.size).toNat ≤ bytes.size := by
    rw [UInt64.toNat_ofNat']
    exact Nat.mod_le _ _
  have hlt : offset.toNat < bytes.size :=
    Nat.lt_of_lt_of_le (UInt64.lt_iff_toNat_lt.1 hoffset) hclaimed
  exact ⟨bytes[offset.toNat], Bytes.read_eq_ok_iff.2 (Array.getElem?_eq_getElem hlt)⟩

theorem Writable.Honest.serves {σ : Type} {w : Writable σ} {view : σ → Bytes}
    (hw : w.Honest view) (table : σ) : w.Serves table := by
  intro puts offset data hinside
  have hclaimed : (w.size table).toNat ≤ (view table).size := by
    rw [hw.size_eq, UInt64.toNat_ofNat']
    exact Nat.mod_le _ _
  have hheld := (hw.confined.replay table puts).size_eq
  rw [hw.answer_eq, Bytes.put_of_le (by omega)]

section Main

variable {σ μ : Type}

/-- A scan is given up for the size of its table exactly when the check at the start says so. -/
theorem result_eq_tableTooSmall_iff (region : Readable) (w : Writable σ) (m : Monitor μ) (table : σ)
    (monitor : μ) :
    (resolve region w m table monitor).result =
      .error (.tableTooSmall region.size (w.size table)) ↔
        w.size table / Word.size < region.size := by
  constructor
  · intro hresult
    have hended := ended_resolve region w m table monitor
    generalize resolve region w m table monitor = outcome at hended hresult
    cases hended with
    | tooSmall hsmall => exact hsmall
    | leftOpen | finished => cases hresult
    | stopped _ _ _ hvisited =>
      cases hresult
      cases hvisited with
      | closed _ _ _ hsettled => cases hsettled
  · intro hsmall
    rw [resolve, if_pos hsmall]

/-- **Numbers in range.** Let the regions claim any sizes of up to 64 bits and answer whatever they
like.

* The check at the start tells whether the table has fewer than twice as many bytes as the image, in
  unbounded numbers, and the scan is given up for that reason exactly then.
* If it is not, every visit that a scan comes to is the visit of the next address, with all numbers
  in range. Every write sends a word of a loop whole, to a slot inside the table, and no read lies
  outside the image.
* So regions that serve what they claim give no fault. Plain bytes and memory blocks are such. -/
theorem resolve_in_range (region : Readable) (w : Writable σ) (m : Monitor μ) (table : σ)
    (monitor : μ) :
    let outcome := resolve region w m table monitor
    (w.size table / Word.size < region.size ↔ (w.size table).toNat < 2 * region.size.toNat) ∧
    (outcome.result = .error (.tableTooSmall region.size (w.size table)) ↔
      (w.size table).toNat < 2 * region.size.toNat) ∧
    (2 * region.size.toNat ≤ (w.size table).toNat → ∀ n < region.size.toNat, ∀ s,
      (Scan.visitAll region w m n 0).run (.begun region m table monitor) = .ok () s →
        (Scan.visitAll region w m (n + 1) 0).run (.begun region m table monitor) =
          (Scan.visit region w m (.ofNat n)).run s ∧ s.InRange n) ∧
    (∀ put ∈ outcome.puts, ∃ o c, region.LoopEnds o c ∧
      SendsWordOf (w.size table).toNat put o c) ∧
    (∀ offset ∈ outcome.reads, offset < region.size) ∧
    (region.Serves → w.Serves table → ∀ fault, outcome.result ≠ .error (.memory fault)) ∧
    (∀ bytes, (Readable.ofBytes bytes).Serves) ∧ (∀ bytes, Writable.bytes.Serves bytes) ∧
      ∀ block, Writable.block.Serves block := by
  intro outcome
  refine ⟨Word.div_size_lt_iff, ?_, ?_, fun put => sendsWord_of_put, fun offset => lt_size_of_read,
    ?_, Readable.serves_ofBytes, Writable.honest_bytes.serves, Writable.honest_block.serves⟩
  · rw [← Word.div_size_lt_iff]
    exact result_eq_tableTooSmall_iff region w m table monitor
  · intro hroom n hn s hrun
    have hsize := (w.size table).toNat_lt_size
    obtain ⟨bytes, opened, closed, rfl, hwent⟩ := went_of_run (Nat.le_of_lt hn) hrun
    refine ⟨?_, hwent.inRange hn (by omega)⟩
    rw [Scan.run_visitAll_add bytes.length 1, hrun, UInt64.zero_add]
    simp only [Scan.run_visitAll_succ]
    cases (Scan.visit region w m (.ofNat bytes.length)).run s <;> rfl
  · intro hregion hw fault hresult
    cases refused_of_memory hresult with
    | read hinside hread =>
      obtain ⟨byte, hbyte⟩ := hregion _ hinside
      rw [hbyte] at hread
      cases hread
    | put hinside hput =>
      rw [hw _ _ _ hinside] at hput
      cases hput

/-- A loop of two bytes in a table of an odd size, and the largest table that can be claimed next to
an image that is too large for it by half a word. -/
theorem resolve_in_range_odd_sizes :
    let image : Readable := .ofBytes #[6, 7]
    let begun := Scan.begun image .silent (Bytes.zeros 5) ()
    (∃ s, (Scan.visitAll image .bytes .silent 1 0).run begun = .ok () s ∧ s.InRange 1) ∧
    image.Serves ∧ Writable.bytes.Serves (Bytes.zeros 5) ∧
    (∀ fault, (resolve image .bytes .silent (Bytes.zeros 5) ()).result ≠ .error (.memory fault)) ∧
    (resolve (image.claiming 0x8000000000000000) (Writable.bytes.claiming 0xFFFFFFFFFFFFFFFF)
      .silent #[] ()).result = .error (.tableTooSmall 0x8000000000000000 0xFFFFFFFFFFFFFFFF) := by
  intro image begun
  obtain ⟨-, -, hvisits, -, -, hserves, himage, hbytes, -⟩ :=
    resolve_in_range image .bytes .silent (Bytes.zeros 5) ()
  obtain ⟨s, hrun⟩ : ∃ s, (Scan.visitAll image .bytes .silent 1 0).run begun = .ok () s :=
    ⟨_, rfl⟩
  have hroom : 2 * image.size.toNat ≤ (Writable.bytes.size (Bytes.zeros 5)).toNat := by decide
  have hone : 1 < image.size.toNat := by decide
  refine ⟨⟨s, hrun, (hvisits hroom 1 hone s hrun).2⟩, himage _, hbytes _,
    hserves (himage _) (hbytes _), ?_⟩
  have hclaimed := resolve_in_range (image.claiming 0x8000000000000000)
    (Writable.bytes.claiming 0xFFFFFFFFFFFFFFFF) .silent #[] ()
  exact hclaimed.2.1.2 (by decide)

end Main

end LoopTable
