import Gcos.Lib.Region
import Mathlib.Order.Interval.Finset.Nat

/-!
# The page store

`gcos/osprims/vmem.py`: byte strings in a file that is mapped into memory.  Every `store` takes
a run of fresh page-sized slots from the bottom of the region upwards, also for a key that is
there already; `page_out` only tells the kernel that the memory behind a run of slots is not
needed.  Seen from outside the store is a map from keys to the bytes stored last.
-/

namespace Gcos.Osprims.Vmem

open Gcos.Lib

/-- The contents of a page, and of the region. -/
abbrev Bytes := List UInt8

/-- What the module `mmap` offers: the page size, and `madvise` with the advice that
`_madv_dontneed` has found, if it has found one.  A call of `madvise` leaves the region with
some contents, and may raise. -/
structure Mmap where
  page : ℕ
  page_pos : 0 < page
  madvise : Option (Bytes → ℕ → ℕ → Except String Unit × Bytes)

/-- `PageRef`. -/
structure PageRef where
  offset : ℕ
  length : ℕ
  slots : ℕ
  resident : Bool := true
deriving DecidableEq, Repr

/-- The exceptions of the store.  `indexError` is what the assignment to a slice of the wrong
size raises. -/
inductive PageError
  | memoryError | keyError | indexError | osError | valueError
deriving DecidableEq, Repr

/-- `MmapPageStore`, without the descriptor and the path of the file. -/
structure MmapPageStore (K : Type) where
  capacityBytes : ℕ
  mm : Bytes
  nextOff : ℕ := 0
  pages : AList fun _ : K => PageRef := ∅
  faultIns : ℕ := 0
  pageOuts : ℕ := 0
  baseMin : ℤ
  baseMaj : ℤ

/-- The result of `fault_stats`. -/
structure FaultStats where
  pagesTracked : ℕ
  resident : ℕ
  appPageOuts : ℕ
  appFaultIns : ℕ
  kernelMinfltDelta : ℤ
  kernelMajfltDelta : ℤ
  pageSize : ℕ
deriving DecidableEq, Repr

namespace MmapPageStore

variable {K : Type}

/-- `MmapPageStore.__init__`, where `faults` are the kernel's counters.  A file cannot be cut
to a negative length, and an empty file cannot be mapped. -/
def init (os : Mmap) (K : Type) (capacityPages : ℤ) (faults : ℤ × ℤ) :
    Except PageError (MmapPageStore K) :=
  let capacityBytes := capacityPages * os.page
  if capacityBytes < 0 then .error .osError
  else if capacityBytes = 0 then .error .valueError
  else .ok
    { capacityBytes := capacityBytes.toNat
      mm := List.replicate capacityBytes.toNat 0
      baseMin := faults.1
      baseMaj := faults.2 }

/-- `MmapPageStore.resident_pages`. -/
def residentPages (s : MmapPageStore K) : ℕ := s.pages.entries.countP fun e => e.2.resident

/-- `MmapPageStore.fault_stats`, where `faults` are the kernel's counters. -/
def faultStats (os : Mmap) (s : MmapPageStore K) (faults : ℤ × ℤ) : FaultStats :=
  { pagesTracked := s.pages.entries.length
    resident := s.residentPages
    appPageOuts := s.pageOuts
    appFaultIns := s.faultIns
    kernelMinfltDelta := max 0 (faults.1 - s.baseMin)
    kernelMajfltDelta := max 0 (faults.2 - s.baseMaj)
    pageSize := os.page }

variable [DecidableEq K]

/-- `MmapPageStore.store`. -/
def store (os : Mmap) (s : MmapPageStore K) (key : K) (data : Bytes) :
    Except PageError PageRef × MmapPageStore K :=
  let slots := max 1 ((data.length + os.page - 1) / os.page)
  let need := slots * os.page
  if s.nextOff + need > s.capacityBytes then (.error .memoryError, s)
  else
    let off := s.nextOff
    let s := { s with nextOff := s.nextOff + need }
    match Region.overwrite s.mm off (off + data.length) data with
    | none => (.error .indexError, s)
    | some mm =>
      let ref : PageRef := { offset := off, length := data.length, slots := slots }
      (.ok ref, { s with mm := mm, pages := s.pages.insert key ref })

/-- `MmapPageStore.page_out`.  What `madvise` raises is only logged. -/
def pageOut (os : Mmap) (s : MmapPageStore K) (key : K) : Bool × MmapPageStore K :=
  match s.pages.lookup key with
  | none => (false, s)
  | some ref =>
    if !ref.resident then (false, s)
    else
      let mm :=
        match os.madvise with
        | some madvise => (madvise s.mm ref.offset (ref.slots * os.page)).2
        | none => s.mm
      (true,
        { s with
          mm := mm
          pages := s.pages.insert key { ref with resident := false }
          pageOuts := s.pageOuts + 1 })

/-- `MmapPageStore.read`. -/
def read (s : MmapPageStore K) (key : K) : Except PageError Bytes × MmapPageStore K :=
  match s.pages.lookup key with
  | none => (.error .keyError, s)
  | some ref =>
    let s :=
      if !ref.resident then
        { s with
          faultIns := s.faultIns + 1
          pages := s.pages.insert key { ref with resident := true } }
      else s
    (.ok (s.mm.extract ref.offset (ref.offset + ref.length)), s)

end MmapPageStore

/-! ### Sessions -/

/-- The calls of a session. -/
inductive Call (K : Type)
  | store (key : K) (data : Bytes)
  | pageOut (key : K)
  | read (key : K)
deriving DecidableEq

/-- What a call returns or raises. -/
inductive Answer
  | stored (result : Except PageError PageRef)
  | pagedOut (result : Bool)
  | bytes (result : Except PageError Bytes)

/-- A store, and the calls so far with their answers, the last one first. -/
structure Session (K : Type) where
  store : MmapPageStore K
  trace : List (Call K × Answer) := []

variable {K : Type} [DecidableEq K]

/-- One call. -/
def Session.after (os : Mmap) (s : Session K) (call : Call K) : Session K :=
  match call with
  | .store key data =>
    let (result, store) := s.store.store os key data
    { store := store, trace := (call, .stored result) :: s.trace }
  | .pageOut key =>
    let (result, store) := s.store.pageOut os key
    { store := store, trace := (call, .pagedOut result) :: s.trace }
  | .read key =>
    let (result, store) := s.store.read key
    { store := store, trace := (call, .bytes result) :: s.trace }

/-- A session. -/
def Session.run (os : Mmap) (s : Session K) (calls : List (Call K)) : Session K :=
  calls.foldl (Session.after os) s

/-! ### What a session should mean -/

namespace Trace

/-- The bytes of the last successful `store` of a key. -/
def lastStored (key : K) : List (Call K × Answer) → Option Bytes
  | [] => none
  | (.store key' data, .stored (.ok _)) :: trace =>
    if key' = key then some data else lastStored key trace
  | _ :: trace => lastStored key trace

/-- The key has been paged out since it was stored or read. -/
def isOut (key : K) : List (Call K × Answer) → Bool
  | [] => false
  | (.store key' _, .stored (.ok _)) :: trace => if key' = key then false else isOut key trace
  | (.read key', _) :: trace => if key' = key then false else isOut key trace
  | (.pageOut key', _) :: trace => if key' = key then true else isOut key trace
  | _ :: trace => isOut key trace

/-- The page references that were handed out. -/
def handedOut : List (Call K × Answer) → List PageRef
  | [] => []
  | (_, .stored (.ok ref)) :: trace => ref :: handedOut trace
  | _ :: trace => handedOut trace

end Trace

/-- The slots of a page. -/
def PageRef.range (os : Mmap) (ref : PageRef) : Finset ℕ :=
  Finset.Ico ref.offset (ref.offset + ref.slots * os.page)

/-! ### Single calls -/

namespace MmapPageStore

variable {os : Mmap} {s : MmapPageStore K} {key : K} {data : Bytes}

/-- The slots of a page are enough for its bytes. -/
lemma length_le_slots (os : Mmap) (data : Bytes) :
    data.length ≤ max 1 ((data.length + os.page - 1) / os.page) * os.page := by
  have hpos := os.page_pos
  have hceil : data.length + os.page - 1 <
      os.page * ((data.length + os.page - 1) / os.page + 1) := Nat.lt_mul_div_succ _ hpos
  have hmax : (data.length + os.page - 1) / os.page * os.page ≤
      max 1 ((data.length + os.page - 1) / os.page) * os.page :=
    Nat.mul_le_mul_right _ (le_max_right _ _)
  rw [Nat.mul_add, Nat.mul_comm, Nat.mul_one] at hceil
  omega

/-- A `store` either finds no room and changes nothing, or it takes the next slots. -/
lemma store_cases (os : Mmap) (hregion : s.mm.length = s.capacityBytes) (key : K) (data : Bytes) :
    s.store os key data = (.error .memoryError, s) ∨
      ∃ (ref : PageRef) (mm : Bytes),
        s.store os key data =
          (.ok ref,
            { s with
              nextOff := s.nextOff + ref.slots * os.page
              mm := mm
              pages := s.pages.insert key ref }) ∧
          ref.offset = s.nextOff ∧ ref.length = data.length ∧ ref.resident = true ∧
          ref.length ≤ ref.slots * os.page ∧ s.nextOff + ref.slots * os.page ≤ s.capacityBytes ∧
          mm.length = s.mm.length ∧ mm.extract s.nextOff (s.nextOff + data.length) = data ∧
          ∀ i j, j ≤ s.nextOff → mm.extract i j = s.mm.extract i j := by
  have hslots := length_le_slots os data
  rw [store]
  split
  · exact .inl rfl
  · next hroom =>
    rw [not_lt] at hroom
    have hfits : s.nextOff + data.length ≤ s.mm.length := by omega
    obtain ⟨mm, hwrite, hlen, hnew, hold⟩ := Region.overwrite_of_room hfits
    simp only [hwrite]
    exact .inr ⟨_, mm, rfl, rfl, rfl, rfl, hslots, hroom, hlen, hnew, hold⟩

/-- A `page_out` either has nothing to do, or it marks a resident page. -/
lemma pageOut_cases (hadvise : ∀ madvise ∈ os.madvise, ∀ mm a n, (madvise mm a n).2 = mm)
    (s : MmapPageStore K) (key : K) :
    (s.pageOut os key = (false, s) ∧ ∀ ref ∈ s.pages.lookup key, ref.resident = false) ∨
      ∃ ref ∈ s.pages.lookup key, ref.resident = true ∧
        s.pageOut os key =
          (true,
            { s with
              pages := s.pages.insert key { ref with resident := false }
              pageOuts := s.pageOuts + 1 }) := by
  rw [pageOut]
  split
  · next hnone => exact .inl ⟨rfl, by simp [hnone]⟩
  · next ref hsome =>
    split
    · next hout => exact .inl ⟨rfl, by simpa [hsome] using hout⟩
    · next hin =>
      refine .inr ⟨ref, hsome, by simpa using hin, ?_⟩
      cases hmadv : os.madvise with
      | none => rfl
      | some madvise =>
        have hsame := hadvise madvise hmadv s.mm ref.offset (ref.slots * os.page)
        simp only [hsame]

/-- A `read` finds no page, a resident one, or one that it brings in. -/
lemma read_cases (s : MmapPageStore K) (key : K) :
    (s.pages.lookup key = none ∧ s.read key = (.error .keyError, s)) ∨
      ∃ ref ∈ s.pages.lookup key,
        (s.read key).1 = .ok (s.mm.extract ref.offset (ref.offset + ref.length)) ∧
          (ref.resident = true ∧ (s.read key).2 = s ∨
            ref.resident = false ∧
              (s.read key).2 =
                { s with
                  faultIns := s.faultIns + 1
                  pages := s.pages.insert key { ref with resident := true } }) := by
  rw [read]
  split
  · next hnone => exact .inl ⟨hnone, rfl⟩
  · next ref hsome =>
    refine .inr ⟨ref, hsome, ?_⟩
    cases hres : ref.resident with
    | true => exact ⟨rfl, .inl ⟨rfl, rfl⟩⟩
    | false => exact ⟨rfl, .inr ⟨rfl, rfl⟩⟩

end MmapPageStore

/-! ### The layout and the map -/

/-- Where the page of a key lies, and what the calls so far say of it. -/
structure Placed (s : MmapPageStore K) (trace : List (Call K × Answer)) (key : K) (ref : PageRef) :
    Prop where
  below : ref.offset + ref.length ≤ s.nextOff
  contents : Trace.lastStored key trace = some (s.mm.extract ref.offset (ref.offset + ref.length))
  resident : ref.resident = !Trace.isOut key trace

/-- A call that writes elsewhere and is about another key. -/
lemma Placed.frame {s s' : MmapPageStore K} {trace trace' : List (Call K × Answer)} {key : K}
    {ref : PageRef} (h : Placed s trace key ref) (htop : s.nextOff ≤ s'.nextOff)
    (hmm : ∀ i j, j ≤ s.nextOff → s'.mm.extract i j = s.mm.extract i j)
    (hstored : Trace.lastStored key trace' = Trace.lastStored key trace)
    (hout : Trace.isOut key trace' = Trace.isOut key trace) : Placed s' trace' key ref where
  below := h.below.trans htop
  contents := by rw [hstored, h.contents, hmm _ _ h.below]
  resident := by rw [hout, h.resident]

/-- The store is the map that the calls so far make. -/
structure Represents (os : Mmap) (s : MmapPageStore K) (trace : List (Call K × Answer)) : Prop where
  region : s.mm.length = s.capacityBytes
  top : s.nextOff ≤ s.capacityBytes
  aligned : os.page ∣ s.nextOff
  placed : ∀ key, ∀ ref ∈ s.pages.lookup key, Placed s trace key ref
  absent : ∀ key, key ∉ s.pages → Trace.lastStored key trace = none
  balance : Dict.count (fun ref => !ref.resident) s.pages + s.faultIns ≤ s.pageOuts
  handed : ∀ ref ∈ Trace.handedOut trace,
    os.page ∣ ref.offset ∧ ref.offset + ref.slots * os.page ≤ s.nextOff
  apart : (Trace.handedOut trace).Pairwise fun ref ref' =>
    ref'.offset + ref'.slots * os.page ≤ ref.offset

namespace Represents

variable {os : Mmap} {s : MmapPageStore K} {trace : List (Call K × Answer)}

lemma init {capacityPages : ℤ} {faults : ℤ × ℤ}
    (hinit : MmapPageStore.init os K capacityPages faults = .ok s) : Represents os s [] := by
  rw [MmapPageStore.init] at hinit
  split at hinit
  · cases hinit
  · split at hinit
    · cases hinit
    · cases hinit
      constructor
      case region => exact List.length_replicate
      case top => exact Nat.zero_le _
      case aligned => exact ⟨0, rfl⟩
      case placed => simp
      case absent => exact fun key _ => rfl
      case balance => exact le_rfl
      case handed => simp [Trace.handedOut]
      case apart => exact .nil

/-- The step lemma for `store`. -/
lemma store (h : Represents os s trace) (key : K) (data : Bytes) :
    Represents os (s.store os key data).2
      ((.store key data, .stored (s.store os key data).1) :: trace) := by
  rcases MmapPageStore.store_cases os h.region key data with
    hfull | ⟨ref, mm, hstore, hoff, hlen, hres, hslots, hroom, hmm, hnew, hold⟩
  · rw [hfull]
    have hplaced : ∀ key', ∀ ref ∈ s.pages.lookup key',
        Placed s ((.store key data, .stored (.error .memoryError)) :: trace) key' ref :=
      fun key' ref href => (h.placed key' ref href).frame le_rfl (fun _ _ _ => rfl) rfl rfl
    exact ⟨h.region, h.top, h.aligned, hplaced, h.absent, h.balance, h.handed, h.apart⟩
  · rw [hstore]
    constructor
    case region => exact hmm.trans h.region
    case top => exact hroom
    case aligned => exact (Nat.dvd_add_right h.aligned).2 (Dvd.intro_left _ rfl)
    case placed =>
      refine Dict.forall_insert ⟨?_, ?_, ?_⟩ fun key' hkey ref' href' => ?_
      · dsimp only
        omega
      · rw [Trace.lastStored, if_pos rfl, hoff, hlen, hnew]
      · rw [hres, Trace.isOut, if_pos rfl]
        rfl
      · -- the page of another key lies below the new one
        exact (h.placed key' ref' href').frame (Nat.le_add_right _ _) hold (if_neg hkey.symm)
          (if_neg hkey.symm)
    case absent =>
      intro key' hkey'
      rw [AList.mem_insert, not_or] at hkey'
      rw [Trace.lastStored, if_neg (Ne.symm hkey'.1)]
      exact h.absent key' hkey'.2
    case balance =>
      have hcount := Dict.count_insert (fun ref => !ref.resident) s.pages key ref
      have hbalance := h.balance
      simp only [hres, Bool.not_true, Bool.false_eq_true, if_false] at hcount
      dsimp only
      omega
    case handed =>
      intro ref' href'
      rcases List.mem_cons.1 href' with rfl | href'
      · exact ⟨hoff ▸ h.aligned, by rw [hoff]⟩
      · obtain ⟨hdvd, hle⟩ := h.handed ref' href'
        exact ⟨hdvd, hle.trans (Nat.le_add_right _ _)⟩
    case apart =>
      refine List.pairwise_cons.2 ⟨fun ref' href' => ?_, h.apart⟩
      rw [hoff]
      exact (h.handed ref' href').2

/-- The step lemma for `page_out`. -/
lemma pageOut (hadvise : ∀ madvise ∈ os.madvise, ∀ mm a n, (madvise mm a n).2 = mm)
    (h : Represents os s trace) (key : K) :
    Represents os (s.pageOut os key).2
      ((.pageOut key, .pagedOut (s.pageOut os key).1) :: trace) := by
  rcases MmapPageStore.pageOut_cases hadvise s key with ⟨hidle, hout⟩ | ⟨ref, href, hres, hpageOut⟩
  · rw [hidle]
    have hplaced : ∀ key', ∀ ref ∈ s.pages.lookup key',
        Placed s ((.pageOut key, .pagedOut false) :: trace) key' ref := by
      intro key' ref href
      have hold := h.placed key' ref href
      by_cases hkey : key' = key
      · subst hkey
        refine ⟨hold.below, hold.contents, ?_⟩
        rw [Trace.isOut, if_pos rfl]
        exact hout ref href
      · exact hold.frame le_rfl (fun _ _ _ => rfl) rfl (if_neg (Ne.symm hkey))
    exact ⟨h.region, h.top, h.aligned, hplaced, h.absent, h.balance, h.handed, h.apart⟩
  · rw [hpageOut]
    obtain ⟨hbelow, hcontents, -⟩ := h.placed key ref href
    constructor
    case placed =>
      refine Dict.forall_insert ⟨hbelow, hcontents, ?_⟩ fun key' hkey ref' href' => ?_
      · rw [Trace.isOut, if_pos rfl]
        rfl
      · exact (h.placed key' ref' href').frame le_rfl (fun _ _ _ => rfl) rfl (if_neg hkey.symm)
    case absent =>
      intro key' hkey'
      rw [AList.mem_insert, not_or] at hkey'
      exact h.absent key' hkey'.2
    case balance =>
      have hcount := Dict.count_insert (fun ref => !ref.resident) s.pages key
        { ref with resident := false }
      have hbalance := h.balance
      simp only [Bool.not_false, if_true] at hcount
      dsimp only
      omega
    case region => exact h.region
    case top => exact h.top
    case aligned => exact h.aligned
    case handed => exact h.handed
    case apart => exact h.apart

/-- The step lemma for `read`. -/
lemma read (h : Represents os s trace) (key : K) :
    Represents os (s.read key).2 ((.read key, .bytes (s.read key).1) :: trace) := by
  have hother : ∀ {s' : MmapPageStore K} {answer : Answer} {key' : K} {ref : PageRef}, key' ≠ key →
      ref ∈ s.pages.lookup key' → s'.mm = s.mm → s'.nextOff = s.nextOff →
      Placed s' ((.read key, answer) :: trace) key' ref := by
    intro s' answer key' ref hkey href hmm htop
    exact (h.placed key' ref href).frame htop.ge (fun _ _ _ => by rw [hmm]) rfl (if_neg hkey.symm)
  rcases s.read_cases key with ⟨hnone, hread⟩ | ⟨ref, href, -, ⟨hres, hread⟩ | ⟨hres, hread⟩⟩
  · rw [hread]
    have hplaced : ∀ key', ∀ ref ∈ s.pages.lookup key',
        Placed s ((.read key, .bytes (.error .keyError)) :: trace) key' ref := by
      intro key' ref href
      have hkey : key' ≠ key := by
        rintro rfl
        exact nomatch hnone.symm.trans href
      exact hother hkey href rfl rfl
    exact ⟨h.region, h.top, h.aligned, hplaced, h.absent, h.balance, h.handed, h.apart⟩
  · rw [hread]
    have hplaced : ∀ key', ∀ ref ∈ s.pages.lookup key',
        Placed s ((.read key, .bytes (s.read key).1) :: trace) key' ref := by
      intro key' ref' href'
      by_cases hkey : key' = key
      · subst hkey
        cases href.symm.trans href'
        have hold := h.placed key' ref href
        refine ⟨hold.below, hold.contents, ?_⟩
        rw [hres, Trace.isOut, if_pos rfl]
        rfl
      · exact hother hkey href' rfl rfl
    exact ⟨h.region, h.top, h.aligned, hplaced, h.absent, h.balance, h.handed, h.apart⟩
  · rw [hread]
    constructor
    case placed =>
      refine Dict.forall_insert ⟨(h.placed key ref href).below, (h.placed key ref href).contents, ?_⟩
        fun key' hkey ref' href' => hother hkey href' rfl rfl
      rw [Trace.isOut, if_pos rfl]
      rfl
    case absent =>
      intro key' hkey'
      rw [AList.mem_insert, not_or] at hkey'
      exact h.absent key' hkey'.2
    case balance =>
      have hcount := Dict.count_insert (fun ref => !ref.resident) s.pages key
        { ref with resident := true }
      have hbalance := h.balance
      have hlookup : s.pages.lookup key = some ref := href
      rw [hlookup, Option.elim_some] at hcount
      simp only [hres, Bool.not_false, Bool.not_true, Bool.false_eq_true, if_true, if_false] at hcount
      dsimp only
      omega
    case region => exact h.region
    case top => exact h.top
    case aligned => exact h.aligned
    case handed => exact h.handed
    case apart => exact h.apart

/-- The run lemma. -/
lemma run (hadvise : ∀ madvise ∈ os.madvise, ∀ mm a n, (madvise mm a n).2 = mm)
    (h : Represents os s trace) (calls : List (Call K)) :
    let session := Session.run os ⟨s, trace⟩ calls
    Represents os session.store session.trace := by
  induction calls generalizing s trace with
  | nil => exact h
  | cons call calls ih =>
    cases call with
    | store key data => exact ih (h.store key data)
    | pageOut key => exact ih (h.pageOut hadvise key)
    | read key => exact ih (h.read key)

/-- What `read` returns or raises. -/
lemma read_eq (h : Represents os s trace) (key : K) :
    (s.read key).1 = (Trace.lastStored key trace).elim (.error .keyError) .ok := by
  rcases s.read_cases key with ⟨hnone, hread⟩ | ⟨ref, href, hread, -⟩
  · rw [hread, h.absent key (AList.lookup_eq_none.1 hnone)]
    rfl
  · rw [hread, (h.placed key ref href).contents]
    rfl

/-- The keys that are there and in the given state are as many as their entries. -/
lemma exists_keys (h : Represents os s trace) (out : Bool) :
    ∃ keys : Finset K, keys.card = Dict.count (fun ref => ref.resident != out) s.pages ∧
      ∀ key, key ∈ keys ↔
        (Trace.lastStored key trace).isSome = true ∧ Trace.isOut key trace = out := by
  obtain ⟨keys, hcard, hmem⟩ := Dict.exists_keys (fun ref => ref.resident != out) s.pages
  refine ⟨keys, hcard, fun key => (hmem key).trans ?_⟩
  constructor
  · rintro ⟨ref, href, hout⟩
    have hplaced := h.placed key ref href
    refine ⟨by rw [hplaced.contents]; rfl, ?_⟩
    rw [hplaced.resident] at hout
    simpa using hout
  · rintro ⟨hstored, hout⟩
    by_cases hkey : key ∈ s.pages
    · obtain ⟨ref, href⟩ := Option.isSome_iff_exists.1 (AList.lookup_isSome.2 hkey)
      refine ⟨ref, href, ?_⟩
      rw [(h.placed key ref href).resident, hout]
      simp
    · rw [h.absent key hkey] at hstored
      cases hstored

end Represents

/-- **The page store is a map.**  Take any capacity, and any calls about any keys and byte
strings, where `madvise` does not change what the region holds.  Then `read` returns the bytes
of the last successful `store` of its key and raises `KeyError` exactly where there is none; a
`store` raises only `MemoryError`, and then changes nothing; the slots of all references ever
handed out begin at a page, lie in the region and do not overlap; `resident_pages` counts
the keys that have not been paged out since they were stored or read; and the keys that have
been are no more than the page-outs without the fault-ins. -/
theorem refines_map (os : Mmap)
    (hadvise : ∀ madvise ∈ os.madvise, ∀ mm a n, (madvise mm a n).2 = mm) (capacityPages : ℤ)
    (faults : ℤ × ℤ) {s₀ : MmapPageStore K}
    (hinit : MmapPageStore.init os K capacityPages faults = .ok s₀) (calls : List (Call K)) :
    let session := Session.run os { store := s₀ } calls
    let s := session.store
    let trace := session.trace
    (∀ key, (s.read key).1 = (Trace.lastStored key trace).elim (.error .keyError) .ok) ∧
      (∀ key data e, (s.store os key data).1 = .error e →
        e = .memoryError ∧ (s.store os key data).2 = s) ∧
      (∀ ref ∈ Trace.handedOut trace,
        os.page ∣ ref.offset ∧ ref.range os ⊆ Finset.range s.capacityBytes) ∧
      (Trace.handedOut trace).Pairwise (fun ref ref' => Disjoint (ref.range os) (ref'.range os)) ∧
      (∃ keys : Finset K, s.residentPages = keys.card ∧ ∀ key, key ∈ keys ↔
        (Trace.lastStored key trace).isSome = true ∧ Trace.isOut key trace = false) ∧
      ∃ keys : Finset K, (∀ key, key ∈ keys ↔
          (Trace.lastStored key trace).isSome = true ∧ Trace.isOut key trace = true) ∧
        ∀ faults, (keys.card : ℤ) ≤
          (s.faultStats os faults).appPageOuts - (s.faultStats os faults).appFaultIns := by
  intro session s trace
  have h : Represents os s trace := (Represents.init hinit).run hadvise calls
  refine ⟨h.read_eq, fun key data e herror => ?_, fun ref href => ?_, ?_, ?_, ?_⟩
  · rcases MmapPageStore.store_cases os h.region key data with hfull | ⟨ref, mm, hstore, -⟩
    · rw [hfull] at herror ⊢
      cases herror
      exact ⟨rfl, rfl⟩
    · rw [hstore] at herror
      cases herror
  · obtain ⟨hdvd, hle⟩ := h.handed ref href
    refine ⟨hdvd, fun x hx => ?_⟩
    have hbelow := (Finset.mem_Ico.1 hx).2
    exact Finset.mem_range.2 (hbelow.trans_le (hle.trans h.top))
  · refine h.apart.imp fun {ref ref'} hle => Finset.disjoint_left.2 fun x hx hx' => ?_
    have habove := (Finset.mem_Ico.1 hx).1
    have hbelow := (Finset.mem_Ico.1 hx').2
    omega
  · obtain ⟨keys, hcard, hmem⟩ := h.exists_keys false
    refine ⟨keys, ?_, hmem⟩
    rw [hcard]
    simp only [Bool.bne_false]
    rfl
  · obtain ⟨keys, hcard, hmem⟩ := h.exists_keys true
    refine ⟨keys, hmem, fun faults => ?_⟩
    have hbalance := h.balance
    simp only [Bool.bne_true] at hcard
    rw [hcard]
    simp only [MmapPageStore.faultStats]
    omega

/-- Three pages of four bytes: a key is stored again, empty, while it is paged out, and then
there is no room for another one. -/
theorem refines_map_stored_again :
    let os : Mmap := { page := 4, page_pos := by decide, madvise := some fun mm _ _ => (.ok (), mm) }
    let calls : List (Call ℕ) := [.store 0 [1, 2, 3, 4, 5], .pageOut 0, .store 0 [], .store 1 [6]]
    let s₀ : MmapPageStore ℕ :=
      { capacityBytes := 12, mm := List.replicate 12 0, baseMin := 0, baseMaj := 0 }
    let session := Session.run os { store := s₀ } calls
    (session.store.read 0).1 = .ok [] ∧ (session.store.read 1).1 = .error .keyError ∧
      Trace.handedOut session.trace = [⟨8, 0, 1, true⟩, ⟨0, 5, 2, true⟩] ∧
      (Trace.handedOut session.trace).Pairwise fun ref ref' =>
        Disjoint (ref.range os) (ref'.range os) := by
  intro os calls s₀ session
  have hadvise : ∀ madvise ∈ os.madvise, ∀ mm a n, (madvise mm a n).2 = mm := by
    intro madvise hmadvise mm a n
    cases hmadvise
    rfl
  have hinit : MmapPageStore.init os ℕ 3 (0, 0) = .ok s₀ := rfl
  have hempty : Trace.lastStored 0 session.trace = some [] := by decide +kernel
  have hnone : Trace.lastStored 1 session.trace = none := by decide +kernel
  have hrefs : Trace.handedOut session.trace = [⟨8, 0, 1, true⟩, ⟨0, 5, 2, true⟩] := by
    decide +kernel
  obtain ⟨hread, -, -, hapart, -⟩ := refines_map os hadvise 3 (0, 0) hinit calls
  refine ⟨(hread 0).trans ?_, (hread 1).trans ?_, hrefs, hapart⟩
  · rw [hempty]
    rfl
  · rw [hnone]
    rfl

end Gcos.Osprims.Vmem
