import LibuvWorks.Win.ProgramEnv

/-!
# The search path of a child process

`uv_spawn` looks for the program in the `PATH` of the block that `make_program_env` has made.
-/
namespace LibuvWorks.Win

open Merging List Option

/-- `L"PATH="` -/
def pathVar : EnvVar := eV ['P', 'A', 'T', 'H']

/-- `find_path` of a block; what is returned is the string that the pointer points to. -/
def findPath (env : WString) : Option WString :=
  match env with
  | [] => none
  | c :: cs =>
    if c = 0 then none
    else if (c :: cs).take 5 = pathVar.wideEq then some (((c :: cs).drop 5).takeWhile (· ≠ 0))
    else findPath ((c :: cs).drop (((c :: cs).takeWhile (· ≠ 0)).length + 1))
termination_by env.length
decreasing_by
  rw [List.length_drop, List.length_cons]
  omega

namespace EnvSystem

/-- A string of a block sets `PATH`, as `make_program_env` compares names. -/
def SetsPath (sys : EnvSystem) (e : WString) : Prop :=
  sys.envStrncmp pathVar.wideEq pathVar.len e = .eq

/-- What follows the `=` -/
def valueOf (e : WString) : WString := (e.dropWhile (· ≠ 61)).drop 1

/-- The value of a string that sets `PATH`, and none only if there is none. -/
def FindsPath (sys : EnvSystem) (strings : List WString) : Option WString → Prop
  | some value => ∃ e ∈ strings, sys.SetsPath e ∧ valueOf e = value
  | none => ∀ e ∈ strings, ¬sys.SetsPath e

variable {sys : EnvSystem} {envBlock : List (List UInt8)} {entries strings : List WString}
  {e dst : WString}

theorem pathVar_mem : pathVar ∈ requiredVars := by decide

theorem setsPath_iff : sys.SetsPath e ↔ sys.varKey pathVar = sys.entryKey e := by
  rw [SetsPath, envStrncmp_eq, keyCmp_eq_eq]

/-- The spelling that `find_path` knows -/
def hasPrefix (e : WString) : Bool := decide (pathVar.wideEq <+: e)

theorem hasPrefix_iff : hasPrefix e = true ↔ pathVar.wideEq <+: e := decide_eq_true_iff

theorem setsPath_of_eqPath (h : pathVar.wideEq <+: e) :
    sys.SetsPath e ∧ valueOf e = e.drop 5 := by
  obtain ⟨w, rfl⟩ := h
  refine ⟨setsPath_iff.mpr (entryKey_append pathVar_mem).symm, ?_⟩
  rfl

theorem takeWhile_text (rest : WString) (h : 0 ∉ e) :
    (e ++ 0 :: rest).takeWhile (fun c => decide (c ≠ 0)) = e := by
  have hne : ∀ c ∈ e, decide (c ≠ 0) = true := fun c hc =>
    decide_eq_true fun habs => h (habs ▸ hc)
  rw [takeWhile_append_of_pos hne]
  simp

theorem take_eq_iff_begins {rest : WString} :
    (e ++ 0 :: rest).take 5 = pathVar.wideEq ↔ pathVar.wideEq <+: e := by
  have hlen : pathVar.wideEq.length = 5 := rfl
  rw [eq_comm, ← hlen, ← prefix_iff_eq_take]
  constructor
  · intro h
    obtain hbegins | ⟨t, ht⟩ := prefix_or_prefix_of_prefix h (prefix_append e (0 :: rest))
    · exact hbegins
    · rw [← ht, prefix_append_right_inj] at h
      cases t with
      | nil =>
        rw [append_nil] at ht
        exact ht ▸ prefix_rfl
      | cons c t =>
        obtain ⟨rfl, -⟩ := cons_prefix_cons.mp h
        have hmem : (0 : UInt16) ∈ pathVar.wideEq := ht ▸ mem_append_right _ mem_cons_self
        exact absurd hmem (by decide)
  · exact fun h => h.trans (prefix_append e (0 :: rest))

theorem findPath_strings (h : ∀ e ∈ strings, 61 ∈ e ∧ 0 ∉ e) :
    findPath (strings.flatMap (fun w => w ++ [0]) ++ [0]) =
      (strings.find? hasPrefix).map fun e => e.drop 5 := by
  induction strings with
  | nil => rw [flatMap_nil, nil_append, findPath, if_pos rfl, List.find?_nil,
      map_none]
  | cons e strings ih =>
    obtain ⟨heq, hnul⟩ := h e mem_cons_self
    have hrest := ih fun f hf => h f (mem_cons_of_mem _ hf)
    obtain ⟨rest, hmem⟩ : ∃ rest, rest = strings.flatMap (fun w => w ++ [0]) ++ [0] := ⟨_, rfl⟩
    have hsplit : (e :: strings).flatMap (fun w => w ++ [0]) ++ [0] = e ++ 0 :: rest := by
      rw [hmem, flatMap_cons]
      simp
    rw [hsplit]
    cases e with
    | nil => cases heq
    | cons c cs =>
      have hc : c ≠ 0 := fun habs => hnul (habs ▸ mem_cons_self)
      have htext := takeWhile_text rest hnul
      rw [cons_append] at htext ⊢
      rw [findPath, if_neg hc, htext, ← cons_append]
      by_cases hbegins : pathVar.wideEq <+: c :: cs
      · have hlen : 5 ≤ (c :: cs).length := hbegins.length_le
        have hvalue : 0 ∉ (c :: cs).drop 5 := fun habs => hnul (mem_of_mem_drop habs)
        rw [if_pos (take_eq_iff_begins.mpr hbegins),
          List.find?_cons_of_pos (hasPrefix_iff.mpr hbegins),
          drop_append_of_le_length hlen, takeWhile_text _ hvalue, map_some]
      · rw [if_neg (mt take_eq_iff_begins.mp hbegins),
          List.find?_cons_of_neg (mt hasPrefix_iff.mp hbegins), ← hrest, ← hmem]
        congr 1
        rw [drop_append, drop_of_length_le (Nat.le_succ _), Nat.add_sub_cancel_left]
        rfl

theorem mem_defaults (he : e ∈ sys.defaults entries) : ∃ v ∈ missing sys.varKey sys.entryKey
    requiredVars entries, ∃ w, sys.parentVar v.wide = some w ∧ e = v.wideEq ++ w := by
  obtain ⟨v, hv, hw⟩ := mem_filterMap.mp he
  obtain ⟨w, hvalue, rfl⟩ := map_eq_some_iff.mp hw
  exact ⟨v, hv, w, hvalue, rfl⟩

theorem text_of_mem (h : sys.Converts envBlock entries) (he : e ∈ entries ++ sys.defaults entries) :
    61 ∈ e ∧ 0 ∉ e := by
  obtain he | he := mem_append.mp he
  · exact h.text he
  · obtain ⟨v, hv, w, hw, rfl⟩ := mem_defaults he
    have hmem : v ∈ requiredVars := (mem_missing.mp hv).1
    have hvar : ∀ v ∈ requiredVars, 61 ∈ v.wideEq ∧ 0 ∉ v.wideEq := by decide
    refine ⟨mem_append_left _ (hvar v hmem).1, fun habs => ?_⟩
    exact (mem_append.mp habs).elim (hvar v hmem).2 (sys.parentVar_nul _ _ hw)

theorem findsPath_iff (hdst : sys.IsBlock entries dst) (h : sys.Converts envBlock entries) :
    sys.FindsPath (entries ++ sys.defaults entries) (findPath dst) ↔
      (∃ e ∈ entries ++ sys.defaults entries, pathVar.wideEq <+: e) ∨
        ∀ e ∈ entries ++ sys.defaults entries, ¬sys.SetsPath e := by
  obtain ⟨strings, rfl, hperm, -⟩ := hdst
  rw [findPath_strings fun e he => text_of_mem h (hperm.mem_iff.mp he)]
  cases hfind : strings.find? hasPrefix with
  | some e =>
    have hbegins := hasPrefix_iff.mp (List.find?_some hfind)
    have hmem := hperm.mem_iff.mp (List.mem_of_find?_eq_some hfind)
    obtain ⟨hsets, hvalue⟩ : sys.SetsPath e ∧ valueOf e = e.drop 5 := setsPath_of_eqPath hbegins
    exact iff_of_true ⟨e, hmem, hsets, hvalue⟩ (.inl ⟨e, hmem, hbegins⟩)
  | none =>
    have hnone : ¬∃ e ∈ entries ++ sys.defaults entries, pathVar.wideEq <+: e := by
      rintro ⟨e, he, hbegins⟩
      have habs := List.find?_eq_none.mp hfind e (hperm.mem_iff.mpr he)
      exact habs (hasPrefix_iff.mpr hbegins)
    exact ⟨.inr, fun h => h.resolve_left hnone⟩

/-- A default that sets `PATH` is spelled so, and there is one only where no entry sets it. -/
theorem default_path (he : e ∈ sys.defaults entries) (hsets : sys.SetsPath e) :
    pathVar.wideEq <+: e ∧ ∀ f ∈ entries, ¬sys.SetsPath f := by
  obtain ⟨v, hv, w, -, rfl⟩ := mem_defaults he
  obtain ⟨hmem, hmissing⟩ := mem_missing.mp hv
  rw [setsPath_iff, entryKey_append hmem] at hsets
  have hvar : v = pathVar := by
    rw [varKey_of_mem hmem, varKey_of_mem pathVar_mem] at hsets
    have hinj : ∀ v ∈ requiredVars, wcsKey pathVar.wide = wcsKey v.wide → v = pathVar := by decide
    exact hinj v hmem hsets
  subst hvar
  refine ⟨prefix_append .., fun f hf hsetsf => ?_⟩
  exact hmissing f hf (setsPath_iff.mp hsetsf).symm

/-- `find_path` finds the search path that the child has, unless all the entries for it are spelled
in another way. -/
theorem findPath_finds {mallocCopy malloc : Bool} (h : sys.Converts envBlock entries)
    (hdst : sys.makeProgramEnv mallocCopy malloc envBlock = .ok dst) :
    sys.FindsPath (entries ++ sys.defaults entries) (findPath dst) ↔
      (∀ e ∈ entries, ¬sys.SetsPath e) ∨ ∃ e ∈ entries, pathVar.wideEq <+: e := by
  have hblock : sys.IsBlock entries dst := by
    obtain (herror | ⟨code, herror⟩) | ⟨entries', hentries, hok⟩ :=
      sys.makeProgramEnv_cases mallocCopy malloc envBlock
    · cases hdst.symm.trans herror
    · cases hdst.symm.trans herror
    · cases hdst.symm.trans hok
      exact hentries.unique h ▸ blockOf_isBlock
  rw [findsPath_iff hblock h]
  constructor
  · rintro (⟨e, he, hbegins⟩ | hnone)
    · obtain he | he := List.mem_append.mp he
      · exact .inr ⟨e, he, hbegins⟩
      · exact .inl (default_path he (setsPath_of_eqPath hbegins).1).2
    · exact .inl fun e he => hnone e (List.mem_append_left _ he)
  · rintro (hnone | ⟨e, he, hbegins⟩)
    · by_cases hdefault : ∃ e ∈ sys.defaults entries, sys.SetsPath e
      · obtain ⟨e, he, hsets⟩ := hdefault
        exact .inl ⟨e, List.mem_append_right _ he, (default_path he hsets).1⟩
      · refine .inr fun e he hsets => ?_
        obtain he | he := List.mem_append.mp he
        · exact hnone e he hsets
        · exact hdefault ⟨e, he, hsets⟩
    · exact .inl ⟨e, List.mem_append_left _ he, hbegins⟩

/-! ### A concrete system -/

/-- `a` to `z` -/
def upperAscii (c : UInt16) : UInt16 := if 97 ≤ c ∧ c ≤ 122 then c - 32 else c

theorem upperAscii_upper {c : UInt16} (h : 65 ≤ c ∧ c ≤ 90) : upperAscii c = c := by
  apply if_neg
  simp only [UInt16.le_iff_toNat_le] at h ⊢
  intro habs
  exact absurd (Nat.le_trans habs.1 h.2) (by decide)

/-- A system that knows ASCII, and a parent without variables. -/
def asciiSystem : EnvSystem where
  upcase s := s.map upperAscii
  length_upcase _ := List.length_map ..
  upcase_upper s hs := by
    have hmap : s.map upperAscii = s.map id :=
      List.map_congr_left fun c hc => upperAscii_upper (hs c hc)
    rw [hmap, List.map_id]
  toWide s := if s.contains 0 then .error 1113 else .ok (s.map UInt8.toUInt16)
  toWide_nul s w hw habs := by
    split at hw
    next => cases hw
    next hs =>
      cases hw
      obtain ⟨c, hc, hzero⟩ := List.mem_map.mp habs
      have hnul : c = 0 := UInt8.toNat_inj.mp
        ((UInt8.toNat_toUInt16 c).symm.trans (congrArg UInt16.toNat hzero))
      exact hs (List.contains_iff_mem.mpr (hnul ▸ hc))
  toWide_eq s w hw heq := by
    split at hw
    next => cases hw
    next =>
      cases hw
      exact List.mem_map.mpr ⟨61, heq, rfl⟩
  parentVar _ := none
  parentVar_nul _ _ hw := nomatch hw
  qsort cmp xs := xs.mergeSort fun a b => (cmp a b).isLE
  qsort_perm _ _ := List.mergeSort_perm ..
  qsort_sorted cmp xs hcmp := by
    have htotal : ∀ a b, ((cmp a b).isLE || (cmp b a).isLE) = true := by
      intro a b
      rw [hcmp.eq_swap (a := a) (b := b)]
      cases cmp b a <;> rfl
    have htrans : ∀ a b c, (cmp a b).isLE = true → (cmp b c).isLE = true → (cmp a c).isLE = true :=
      fun a b c hab hbc => hcmp.isLE_trans hab hbc
    have hsorted : (xs.mergeSort fun a b => (cmp a b).isLE).Pairwise
        fun a b => (cmp a b).isLE = true :=
      List.pairwise_mergeSort htrans htotal xs
    exact hsorted.imp fun hle habs => by
      rw [habs] at hle
      cases hle

theorem asciiSystem_defaults : asciiSystem.defaults entries = [] :=
  filterMap_eq_nil_iff.mpr fun _ _ => rfl

/-- `PATH=C` -/
def upperPath : List UInt8 := [80, 65, 84, 72, 61, 67]

def upperEntry : WString := [80, 65, 84, 72, 61, 67]

theorem upperPath_converts : asciiSystem.Converts [upperPath] [upperEntry] :=
  .entry (by decide) rfl .nil

theorem upperPath_block : asciiSystem.makeProgramEnv true true [upperPath] =
    .ok (asciiSystem.blockOf [upperEntry]) := by
  have hfirst : asciiSystem.firstPass [upperPath] 0 1 = .ok (7, 2) := rfl
  have hfill : asciiSystem.fillEnv true 7 2 [upperPath] = .ok (asciiSystem.blockOf [upperEntry]) :=
    fillEnv_eq upperPath_converts
  rw [makeProgramEnv, hfirst]
  exact hfill

theorem findPath_finds_upper : asciiSystem.FindsPath
    ([upperEntry] ++ asciiSystem.defaults [upperEntry])
    (findPath (asciiSystem.blockOf [upperEntry])) :=
  (findPath_finds upperPath_converts upperPath_block).mpr
    (.inr ⟨upperEntry, List.mem_singleton_self _, by decide⟩)

/-- `Path=C` -/
def mixedPath : List UInt8 := [80, 97, 116, 104, 61, 67]

def mixedEntry : WString := [80, 97, 116, 104, 61, 67]

theorem mixedPath_converts : asciiSystem.Converts [mixedPath] [mixedEntry] :=
  .entry (by decide) rfl .nil

/-- The child has the search path of its entry, and `find_path` does not find it. -/
theorem path_overlooked : asciiSystem.SetsPath mixedEntry ∧
    asciiSystem.makeProgramEnv true true [mixedPath] = .ok (asciiSystem.blockOf [mixedEntry]) ∧
    ¬asciiSystem.FindsPath ([mixedEntry] ++ asciiSystem.defaults [mixedEntry])
      (findPath (asciiSystem.blockOf [mixedEntry])) := by
  have hfirst : asciiSystem.firstPass [mixedPath] 0 1 = .ok (7, 2) := rfl
  have hfill : asciiSystem.fillEnv true 7 2 [mixedPath] =
    .ok (asciiSystem.blockOf [mixedEntry]) := fillEnv_eq mixedPath_converts
  refine ⟨rfl, ?_, fun habs => ?_⟩
  · rw [makeProgramEnv, hfirst]
    exact hfill
  · obtain ⟨e, he, hbegins⟩ | hnone := (findsPath_iff blockOf_isBlock mixedPath_converts).mp habs
    · rw [asciiSystem_defaults, List.append_nil, List.mem_singleton] at he
      subst he
      exact absurd hbegins (by decide)
    · exact hnone mixedEntry List.mem_cons_self rfl

end EnvSystem

end LibuvWorks.Win
