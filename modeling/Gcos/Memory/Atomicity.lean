import Gcos.Memory.Swap

/-!
# Swapping when something fails

The swap directory of an agent with files of any content: `swap_in` reads the files in the
order of their names and appends page by page, so that what it has read before a failure
stays in the context; and `evict` opens the file before the text is encoded and written, so
that a failure after that leaves a file behind that `swap_in` cannot read.

The swap directory of the kernel state has complete and broken files only; on these the
functions here are those of the kernel state.
-/

namespace Gcos.Memory

open Lib

variable {Page : Type}

/-- A file in the directory of an agent.  Reading and parsing it raises, or gives a sequence
of records, each of which is turned into a page or raises. -/
structure SwapEntry (Page : Type) where
  name : String
  content : Except Exn (List (Except Exn Page))

namespace SwapEntry

/-- `fpath.suffix == ".json"`. -/
def isJson (file : SwapEntry Page) : Bool :=
  ".json".toList <:+ file.name.toList && 5 < file.name.toList.length

/-- What the loop of `swap_in` meets in a file. -/
def items (file : SwapEntry Page) : List (Except Exn Page) :=
  if file.isJson then
    match file.content with
    | .error e => [.error e]
    | .ok records => records
  else []

/-- `swap_in` raises when it comes to the file. -/
def Unreadable (file : SwapEntry Page) : Prop := ∃ e, .error e ∈ file.items

end SwapEntry

/-! ### Swapping in -/

/-- The inner loop of `swap_in`. -/
def loadRecords : List (Except Exn Page) → List Page → ℕ → Except Exn ℕ × List Page
  | [], pages, loaded => (.ok loaded, pages)
  | .error e :: _, pages, _ => (.error e, pages)
  | .ok page :: records, pages, loaded => loadRecords records (pages ++ [page]) (loaded + 1)

/-- The outer loop of `swap_in`. -/
def loadFiles : List (SwapEntry Page) → List Page → ℕ → Except Exn ℕ × List Page
  | [], pages, loaded => (.ok loaded, pages)
  | file :: files, pages, loaded =>
    if file.isJson then
      match file.content with
      | .error e => (.error e, pages)
      | .ok records =>
        match loadRecords records pages loaded with
        | (.error e, pages) => (.error e, pages)
        | (.ok loaded, pages) => loadFiles files pages loaded
    else loadFiles files pages loaded

/-- `sorted(target_dir.iterdir())`. -/
def sortedFiles (dir : List (SwapEntry Page)) : List (SwapEntry Page) :=
  dir.insertionSort fun f g => f.name ≤ g.name

/-- `swap_in` on the pages of an agent and its directory.  One that does not exist has no
files. -/
def swapInDir (dir : List (SwapEntry Page)) (pages : List Page) : Except Exn ℕ × List Page :=
  loadFiles (sortedFiles dir) pages 0

/-- What `swap_in` meets in a directory. -/
def itemsOf (dir : List (SwapEntry Page)) : List (Except Exn Page) :=
  (sortedFiles dir).flatMap SwapEntry.items

lemma loadRecords_append (xs ys : List (Except Exn Page)) (pages : List Page) (loaded : ℕ) :
    loadRecords (xs ++ ys) pages loaded =
      match loadRecords xs pages loaded with
      | (.error e, pages) => (.error e, pages)
      | (.ok loaded, pages) => loadRecords ys pages loaded := by
  induction xs generalizing pages loaded with
  | nil => rfl
  | cons x xs ih =>
    cases x with
    | error e => rfl
    | ok page => exact ih (pages ++ [page]) (loaded + 1)

/-- The two loops go through what the files have. -/
lemma loadFiles_eq (files : List (SwapEntry Page)) (pages : List Page) (loaded : ℕ) :
    loadFiles files pages loaded = loadRecords (files.flatMap SwapEntry.items) pages loaded := by
  induction files generalizing pages loaded with
  | nil => rfl
  | cons file files ih =>
    rw [List.flatMap_cons, loadRecords_append, loadFiles, SwapEntry.items]
    split
    · cases file.content with
      | error e => rfl
      | ok records =>
        dsimp only
        cases loadRecords records pages loaded with
        | mk answer pages =>
          cases answer with
          | error e => rfl
          | ok loaded => exact ih pages loaded
    · exact ih pages loaded

/-- What `swap_in` has appended when it comes to the first failure. -/
lemma loadRecords_of_error {pre suf : List (Except Exn Page)} {good : List Page} {e : Exn}
    (hpre : pre = good.map .ok) (pages : List Page) (loaded : ℕ) :
    loadRecords (pre ++ .error e :: suf) pages loaded = (.error e, pages ++ good) := by
  subst hpre
  induction good generalizing pages loaded with
  | nil => simp [loadRecords]
  | cons page good ih => simp [loadRecords, ih]

/-- What `swap_in` does where nothing fails. -/
lemma loadRecords_of_ok (good pages : List Page) (loaded : ℕ) :
    loadRecords (good.map .ok) pages loaded = (.ok (loaded + good.length), pages ++ good) := by
  induction good generalizing pages loaded with
  | nil => simp [loadRecords]
  | cons page good ih => simp [loadRecords, ih, Nat.add_assoc, Nat.add_comm 1]

/-- Items are pages, or pages up to a first failure. -/
lemma exists_pages (items : List (Except Exn Page)) :
    (∃ good : List Page, items = good.map .ok) ∨
      ∃ (good : List Page) (e : Exn) (suf : List (Except Exn Page)),
        items = good.map .ok ++ .error e :: suf := by
  induction items with
  | nil => exact .inl ⟨[], rfl⟩
  | cons item items ih =>
    cases item with
    | error e => exact .inr ⟨[], e, items, rfl⟩
    | ok page =>
      rcases ih with ⟨good, rfl⟩ | ⟨good, e, suf, rfl⟩
      · exact .inl ⟨page :: good, rfl⟩
      · exact .inr ⟨page :: good, e, suf, rfl⟩

/-- A `swap_in` that raises has changed nothing. -/
def SwapInAtomic (dir : List (SwapEntry Page)) (pages : List Page) : Prop :=
  ∀ e, (swapInDir dir pages).1 = .error e → (swapInDir dir pages).2 = pages

/-- Nothing fails, or the first thing that is read. -/
def FailsFirst (items : List (Except Exn Page)) : Prop :=
  (∀ e, .error e ∉ items) ∨ ∃ e, items.head? = some (.error e)

lemma swapInAtomic_iff (dir : List (SwapEntry Page)) (pages : List Page) :
    SwapInAtomic dir pages ↔ FailsFirst (itemsOf dir) := by
  have hloop : swapInDir dir pages = loadRecords (itemsOf dir) pages 0 := loadFiles_eq _ pages 0
  rw [SwapInAtomic, hloop]
  rcases exists_pages (itemsOf dir) with ⟨good, hgood⟩ | ⟨good, e, suf, hbad⟩
  · rw [hgood, loadRecords_of_ok]
    refine iff_of_true nofun (.inl fun e he => ?_)
    simp at he
  · rw [hbad, loadRecords_of_error rfl]
    cases good with
    | nil => exact iff_of_true (fun _ _ => List.append_nil _) (.inr ⟨e, rfl⟩)
    | cons page good =>
      refine iff_of_false (fun h => ?_) ?_
      · have hsame := h e rfl
        simp at hsame
      · rintro (hnone | ⟨e', he'⟩)
        · exact hnone e (by simp)
        · simp at he'

/-! ### Swapping out -/

/-- A write of a file: one of the same name is overwritten. -/
def putEntry (file : SwapEntry Page) (dir : List (SwapEntry Page)) : List (SwapEntry Page) :=
  dir.filter (fun f => f.name ≠ file.name) ++ [file]

/-- `target_dir / f"{time.time():.6f}.json"`. -/
def swapName (now : Time) : String := Text.fixed 6 now ++ ".json"

/-- What `json.loads` raises on a text that broke off. -/
def brokenJson : Exn := .other "JSONDecodeError" "Expecting value: line 1 column 1 (char 0)"

/-- `SwapEvictionPolicy.evict` on the pages of an agent and its directory.  What fails for a
batch is given with it: what raises, and whether the file was already opened then. -/
def evictDir (batchSize minKeep : ℤ) (now : Time) (fails : List ContextPage → Option (Exn × Bool))
    (pages : List ContextPage) (dir : List (SwapEntry ContextPage)) :
    Except Exn ℤ × List ContextPage × List (SwapEntry ContextPage) :=
  match swapBatch batchSize minKeep pages with
  | none => (.ok 0, pages, dir)
  | some batch =>
    match fails batch with
    | some (e, false) => (.error e, pages, dir)
    | some (e, true) => (.error e, pages, putEntry ⟨swapName now, .error brokenJson⟩ dir)
    | none => (.ok batch.length, pages.diff batch,
        putEntry ⟨swapName now, .ok (batch.map .ok)⟩ dir)

/-- An eviction that raises has changed no page, and every file that makes `swap_in` raise
was there before. -/
def EvictAtomic (batchSize minKeep : ℤ) (now : Time)
    (fails : List ContextPage → Option (Exn × Bool)) (pages : List ContextPage)
    (dir : List (SwapEntry ContextPage)) : Prop :=
  ∀ e, (evictDir batchSize minKeep now fails pages dir).1 = .error e →
    (evictDir batchSize minKeep now fails pages dir).2.1 = pages ∧
      ∀ file ∈ (evictDir batchSize minKeep now fails pages dir).2.2, file.Unreadable → file ∈ dir

/-- A batch is written without a failure after the file was opened, or the same broken file
was there before. -/
def FailsUnopened (batchSize minKeep : ℤ) (now : Time)
    (fails : List ContextPage → Option (Exn × Bool)) (pages : List ContextPage)
    (dir : List (SwapEntry ContextPage)) : Prop :=
  ∀ batch e, swapBatch batchSize minKeep pages = some batch → fails batch = some (e, true) →
    ⟨swapName now, .error brokenJson⟩ ∈ dir

lemma isJson_of_stem {stem : String} (hstem : stem ≠ "")
    (content : Except Exn (List (Except Exn Page))) :
    (⟨stem ++ ".json", content⟩ : SwapEntry Page).isJson = true := by
  have hlen : stem.toList.length ≠ 0 := fun h =>
    hstem (String.toList_eq_nil_iff.1 (List.length_eq_zero_iff.1 h))
  have hext : ".json".toList.length = 5 := rfl
  rw [SwapEntry.isJson, Bool.and_eq_true, decide_eq_true_eq, decide_eq_true_eq,
    String.toList_append, List.length_append, hext]
  exact ⟨List.suffix_append _ _, by omega⟩

lemma isJson_swapName (now : Time) (content : Except Exn (List (Except Exn Page))) :
    (⟨swapName now, content⟩ : SwapEntry Page).isJson = true := by
  refine isJson_of_stem (fun hempty => ?_) content
  have hlen := congrArg (fun s => s.toList.length) hempty
  have hdot : ".".toList.length = 1 := rfl
  have hnil : "".toList.length = 0 := rfl
  simp only [Text.fixed, String.toList_append, List.length_append] at hlen
  omega

lemma evictAtomic_iff (batchSize minKeep : ℤ) (now : Time)
    (fails : List ContextPage → Option (Exn × Bool)) (pages : List ContextPage)
    (dir : List (SwapEntry ContextPage)) :
    EvictAtomic batchSize minKeep now fails pages dir ↔
      FailsUnopened batchSize minKeep now fails pages dir := by
  unfold EvictAtomic FailsUnopened evictDir
  cases hbatch : swapBatch batchSize minKeep pages with
  | none => exact iff_of_true nofun nofun
  | some batch =>
    cases hfails : fails batch with
    | none =>
      refine iff_of_true (by simp [hfails]) fun batch' e hbatch' hopened => ?_
      obtain rfl := Option.some.inj hbatch'
      rw [hfails] at hopened
      cases hopened
    | some failure =>
      obtain ⟨e, opened⟩ := failure
      cases opened with
      | false =>
        have hkept : ∀ file ∈ dir, file.Unreadable → file ∈ dir := fun _ hfile _ => hfile
        refine iff_of_true (by simpa [hfails] using hkept) fun batch' e hbatch' hopened => ?_
        obtain rfl := Option.some.inj hbatch'
        rw [hfails] at hopened
        cases hopened
      | true =>
        have hbroken : (⟨swapName now, .error brokenJson⟩ : SwapEntry ContextPage).Unreadable :=
          ⟨brokenJson, by simp [SwapEntry.items, isJson_swapName]⟩
        simp only [hfails]
        constructor
        · intro hatomic batch' e' _ _
          refine (hatomic e rfl).2 _ ?_ hbroken
          exact List.mem_append_right _ List.mem_cons_self
        · intro hunopened e' _
          refine ⟨trivial, fun file hfile _ => ?_⟩
          rcases List.mem_append.1 hfile with hfile | hfile
          · exact List.mem_of_mem_filter hfile
          · rw [List.mem_singleton.1 hfile]
            exact hunopened batch e rfl hfails

/-! ### The swap directory of the kernel state -/

/-- A file of the kernel state, as `swap_in` reads it. -/
def entryOf (file : SwapFile) : SwapEntry ContextPage where
  name := file.stamp ++ ".json"
  content :=
    match file.pages with
    | none => .error brokenJson
    | some batch => .ok (batch.map .ok)

/-- The directory of an agent in the kernel state. -/
def entriesOf (p : Pid) (dir : List SwapFile) : List (SwapEntry ContextPage) :=
  (filesOf p dir).map entryOf

lemma loadFiles_entryOf {files : List SwapFile} (hstem : ∀ f ∈ files, f.stamp ≠ "")
    (pages : List ContextPage) (loaded : ℕ) :
    loadFiles (files.map entryOf) pages loaded = swapInFrom files pages loaded := by
  induction files generalizing pages loaded with
  | nil => rfl
  | cons file files ih =>
    have hjson : (entryOf file).isJson = true := isJson_of_stem (hstem file List.mem_cons_self) _
    have ih := ih fun f hf => hstem f (List.mem_cons_of_mem file hf)
    rw [List.map_cons, loadFiles, if_pos hjson, swapInFrom, entryOf]
    cases file.pages with
    | none => rfl
    | some batch =>
      dsimp only
      rw [loadRecords_of_ok]
      exact ih (pages ++ batch) (loaded + batch.length)

/-- **`swap_in` of the kernel state** is `swap_in` on the directory of the agent. -/
theorem swapIn_eq_swapInDir {n : ℕ} {p : Pid} {w : World n}
    (hstem : ∀ f ∈ w.swapDir, f.stamp ≠ "") :
    ((swapIn p w).1, ((swapIn p w).2.pcbs p).contextPages) =
      swapInDir (entriesOf p w.swapDir) (w.pcbs p).contextPages := by
  have hsort : sortedFiles (entriesOf p w.swapDir) = (swapFiles w.swapDir p).map entryOf :=
    (List.map_insertionSort _ _ entryOf (filesOf p w.swapDir) fun f _ g _ => Iff.rfl).symm
  have hfiles : ∀ f ∈ swapFiles w.swapDir p, f.stamp ≠ "" := fun f hf =>
    hstem f (List.mem_of_mem_filter ((List.perm_insertionSort _ _).mem_iff.1 hf))
  rw [swapInDir, hsort, loadFiles_entryOf hfiles]
  simp [swapIn]

lemma entriesOf_writeTo (p : Pid) (stamp : String) (content : Option (List ContextPage))
    (dir : List SwapFile) :
    entriesOf p (SwapFile.writeTo { pid := p, stamp := stamp, pages := content } dir) =
      putEntry (entryOf { pid := p, stamp := stamp, pages := content }) (entriesOf p dir) := by
  have hsame : (filesOf p dir).filter (fun f => !decide (f.stamp = stamp)) =
      (filesOf p dir).filter (fun f => decide ((entryOf f).name ≠ stamp ++ ".json")) := by
    refine List.filter_congr fun f _ => ?_
    have hname : f.stamp ++ ".json" = stamp ++ ".json" ↔ f.stamp = stamp := by
      rw [← String.toList_inj, String.toList_append, String.toList_append,
        List.append_cancel_right_eq, String.toList_inj]
    simp [entryOf, hname]
  rw [entriesOf, filesOf_writeTo, List.map_append, putEntry, entriesOf, List.filter_map, hsame]
  rfl

/-- **`evict` in the kernel state** is `evict` on the directory of the agent. -/
theorem runs_evictSwap_eq_evictDir {n : ℕ} {cfg : KernelConfig} {out : Outside} {t : Tid n} {p : Pid}
    (batchSize minKeep : ℤ) (w : World n) :
    ((World.runs cfg out t (evictSwap batchSize minKeep p) w).1,
        ((World.runs cfg out t (evictSwap batchSize minKeep p) w).2.pcbs p).contextPages,
        entriesOf p (World.runs cfg out t (evictSwap batchSize minKeep p) w).2.swapDir) =
      evictDir batchSize minKeep (out.clock w.ticks) (fun _ => out.swapWrite w.swaps)
        (w.pcbs p).contextPages (entriesOf p w.swapDir) := by
  unfold evictDir swapBatch
  by_cases hfloor : ((nonPinned (w.pcbs p).contextPages).length : ℤ) ≤ minKeep
  · simp [evictSwap, World.exec, hfloor]
  · rcases hwrite : out.swapWrite w.swaps with _ | ⟨e, _ | _⟩
    · simp [evictSwap, World.exec, hfloor, hwrite, runs_removePages, entriesOf_writeTo, entryOf,
        swapName]
    · simp [evictSwap, World.exec, hfloor, hwrite]
    · simp [evictSwap, World.exec, hfloor, hwrite, entriesOf_writeTo, entryOf, swapName]

/-! ### Both -/

/-- One good file, and one whose write broke off. -/
def halfReadable : List (SwapEntry ContextPage) :=
  [⟨"1.json", .ok [.ok { role := .user, content := "a", lastAccess := 0 }]⟩,
    ⟨"2.json", .error brokenJson⟩]

/-- The error of a text that has no encoding. -/
def surrogates : Exn :=
  .other "UnicodeEncodeError" "'utf-8' codec can't encode character: surrogates not allowed"

/-- **Half of a swap-in.**  `swap_in` raises at the second file when the page of the first is
in the context; and an eviction whose text cannot be encoded leaves a file behind at which
every later `swap_in` raises. -/
theorem swap_not_atomic :
    ¬SwapInAtomic halfReadable [] ∧
      ¬EvictAtomic 1 0 0 (fun _ => some (surrogates, true))
        [{ role := .user, content := "a", lastAccess := 0 }] [] ∧
      (swapInDir (evictDir 1 0 0 (fun _ => some (surrogates, true))
        [{ role := .user, content := "a", lastAccess := 0 }] []).2.2 []).1 = .error brokenJson := by
  refine ⟨fun h => ?_, fun h => ?_, by decide +kernel⟩
  · have hsame := h brokenJson (by decide +kernel)
    revert hsame
    decide +kernel
  · have hleft := (evictAtomic_iff _ _ _ _ _ _).1 h
      [{ role := .user, content := "a", lastAccess := 0 }] surrogates (by decide +kernel) rfl
    cases hleft

/-- **When swapping is atomic.**  A `swap_in` that raises leaves the context as it was exactly
if nothing that it reads fails or the first thing does, and an eviction that raises leaves
the context as it was and no new file at which `swap_in` raises exactly if nothing fails
once the file is opened, or the broken file was there before. -/
theorem atomic_iff (batchSize minKeep : ℤ) (now : Time)
    (fails : List ContextPage → Option (Exn × Bool)) (pages : List ContextPage)
    (dir : List (SwapEntry ContextPage)) :
    (SwapInAtomic dir pages ↔ FailsFirst (itemsOf dir)) ∧
      (EvictAtomic batchSize minKeep now fails pages dir ↔
        FailsUnopened batchSize minKeep now fails pages dir) :=
  ⟨swapInAtomic_iff dir pages, evictAtomic_iff batchSize minKeep now fails pages dir⟩

end Gcos.Memory
