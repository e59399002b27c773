import Mathlib.Data.List.Infix
import Etherchimp.Server.PcapPath

/-!
# No request leaves the directory

A name that passes the check is one element: it has no slash and is neither `.` nor `..`.
Cleaning keeps such an element, so the path under `pcaps`, made absolute in whatever
directory, is the absolute `pcaps` with the name behind it. The test of the prefix never
fails; what keeps a request inside is the check of the name.
-/

namespace Etherchimp

open Filepath

/-- A name that is one element of a path. -/
structure PlainElement (e : List Char) : Prop where
  slash : '/' ∉ e
  nonempty : e ≠ []
  dot : e ≠ ['.']
  dotdot : e ≠ ['.', '.']

namespace Filepath

variable {e : List Char} {path : List Char} {rooted : Bool} {out : List (List Char)}

theorem cleanElement_plain (he : PlainElement e) (rooted : Bool) (out : List (List Char)) :
    cleanElement rooted out e = out ++ [e] := by
  unfold cleanElement
  rw [if_neg (not_or.mpr ⟨he.nonempty, he.dot⟩), if_neg he.dotdot]

/-- A plain element behind a path stays behind it. -/
theorem elements_concat (he : PlainElement e) (hne : path ≠ []) :
    elements (path ++ '/' :: e) = elements path ++ [e] := by
  have hhead : (path ++ '/' :: e).head? = path.head? := by
    cases path with
    | nil => exact absurd rfl hne
    | cons c path => rfl
  unfold elements
  rw [hhead, List.splitOn_append_cons_self, List.splitOn_eq_singleton he.slash, List.foldl_append,
    List.foldl_cons, List.foldl_nil, cleanElement_plain he]

theorem elements_plain (he : PlainElement e) : elements e = [e] := by
  unfold elements
  rw [List.splitOn_eq_singleton he.slash, List.foldl_cons, List.foldl_nil, cleanElement_plain he]
  rfl

theorem intercalate_concat (hne : out ≠ []) (e : List Char) :
    ['/'].intercalate (out ++ [e]) = ['/'].intercalate out ++ '/' :: e := by
  induction out with
  | nil => exact absurd rfl hne
  | cons o out ih =>
    by_cases hout : out = []
    · subst hout
      simp
    · rw [List.cons_append, List.intercalate_cons_of_ne_nil (by simp), ih hout,
        List.intercalate_cons_of_ne_nil hout]
      simp

theorem render_concat (hne : out ≠ []) (e : List Char) :
    render rooted (out ++ [e]) = render rooted out ++ '/' :: e := by
  unfold render
  cases rooted with
  | true => rw [if_pos rfl, if_pos rfl, intercalate_concat hne, List.cons_append]
  | false =>
    rw [if_neg Bool.false_ne_true, if_neg Bool.false_ne_true, if_neg hne, if_neg (by simp),
      intercalate_concat hne]

/-- Cleaning a path with two plain elements behind it, as text. -/
theorem clean_concat {d : List Char} (hd : PlainElement d) (he : PlainElement e)
    (path : List Char) (hne : path ≠ []) :
    clean (String.ofList (path ++ '/' :: (d ++ '/' :: e)))
      = clean (String.ofList (path ++ '/' :: d)) ++ "/" ++ String.ofList e := by
  have hassoc : path ++ '/' :: (d ++ '/' :: e) = (path ++ '/' :: d) ++ '/' :: e := by simp
  have hhead : ((path ++ '/' :: d) ++ '/' :: e).head? = (path ++ '/' :: d).head? := by
    cases path with
    | nil => exact absurd rfl hne
    | cons c path => rfl
  unfold clean
  rw [String.toList_ofList, String.toList_ofList, hassoc, hhead, elements_concat he (by simp),
    elements_concat hd hne, render_concat (by simp)]
  refine String.ext ?_
  simp

theorem clean_two {d : List Char} (hd : PlainElement d) (he : PlainElement e) :
    clean (String.ofList (d ++ '/' :: e)) = String.ofList (d ++ '/' :: e)
      ∧ clean (String.ofList d) = String.ofList d := by
  have hroot : ∀ rest, decide ((d ++ rest).head? = some '/') = false := by
    intro rest
    cases d with
    | nil => exact absurd rfl hd.nonempty
    | cons c d =>
      refine decide_eq_false fun hc => hd.slash ?_
      rw [← Option.some.inj hc]
      exact List.mem_cons_self ..
  have hroot' := hroot []
  rw [List.append_nil] at hroot'
  unfold clean
  rw [String.toList_ofList, String.toList_ofList, hroot, hroot', elements_concat he hd.nonempty,
    elements_plain hd, render_concat (by simp)]
  simp [render]

theorem join_two {a : String} (ha : a ≠ "") (b : String) :
    join [a, b] = clean (String.ofList (a.toList ++ '/' :: b.toList)) := by
  have hdrop : [a, b].dropWhile (· = "") = [a, b] :=
    List.dropWhile_cons_of_neg (by simpa using ha)
  unfold join
  rw [hdrop]
  simp

theorem join_empty {b : String} (hb : b ≠ "") : join ["", b] = clean b := by
  have hdrop : ["", b].dropWhile (· = "") = [b] := by
    rw [List.dropWhile_cons_of_pos (by simp), List.dropWhile_cons_of_neg (by simpa using hb)]
  unfold join
  rw [hdrop]
  simp

/-- The last element of a path that ends in a plain one. -/
theorem base_concat {name : String} (h : PlainElement name.toList) {path : String}
    {d : List Char} (hd : d = [] ∨ ∃ d', d = d' ++ ['/']) (hpath : path.toList = d ++ name.toList) :
    base path = name := by
  have hne : name.toList ≠ [] := h.nonempty
  have hpne : path ≠ "" := fun he => by
    rw [he] at hpath
    exact hne (List.append_eq_nil_iff.mp hpath.symm).2
  have hkeep : (d ++ name.toList).rdropWhile (· = '/') = d ++ name.toList := by
    rw [List.rdropWhile_eq_self_iff]
    intro hl hc
    rw [List.getLast_append_of_right_ne_nil _ _ hne] at hc
    exact h.slash (of_decide_eq_true hc ▸ List.getLast_mem hne)
  have hslash : ∀ c ∈ name.toList.reverse, decide (c ≠ '/') = true := by
    intro c hc
    exact decide_eq_true fun he => h.slash (he ▸ List.mem_reverse.mp hc)
  have htake : (d ++ name.toList).rtakeWhile (· ≠ '/') = name.toList := by
    unfold List.rtakeWhile
    rw [List.reverse_append, List.takeWhile_append_of_pos hslash]
    rcases hd with rfl | ⟨d', rfl⟩ <;> simp
  unfold base
  rw [if_neg hpne, hpath, hkeep]
  dsimp only
  rw [htake, if_neg hne, String.ofList_toList]

end Filepath

/-! ## The name -/

def pcapsElement : List Char := ['p', 'c', 'a', 'p', 's']

theorem pcaps_toList : ("pcaps" : String).toList = pcapsElement := by decide

theorem pcaps_slash : ("pcaps/" : String).toList = pcapsElement ++ ['/'] := by decide

theorem plain_pcaps : PlainElement pcapsElement where
  slash := by decide
  nonempty := by decide
  dot := by decide
  dotdot := by decide

/-- What a name that is served looks like. -/
structure ServableName (name : String) : Prop where
  chars : ∀ c ∈ name.toList, isFilenameChar c = true
  suffix : pcapSuffix <:+ name.toList
  stem : pcapSuffix.length < name.toList.length
  dotdot : ¬ ['.', '.'] <:+: name.toList

theorem hasDotDot_iff (name : String) : hasDotDot name = true ↔ ['.', '.'] <:+: name.toList := by
  unfold hasDotDot
  rw [List.any_eq_true, List.infix_iff_prefix_suffix]
  constructor
  · rintro ⟨t, ht, hp⟩
    exact ⟨t, List.isPrefixOf_iff_prefix.mp hp, (List.mem_tails ..).mp ht⟩
  · rintro ⟨t, hp, ht⟩
    exact ⟨t, (List.mem_tails ..).mpr ht, List.isPrefixOf_iff_prefix.mpr hp⟩

theorem validFilename_iff (name : String) : validFilename name = true ↔
    pcapSuffix <:+ name.toList ∧ pcapSuffix.length < name.toList.length
      ∧ ∀ c ∈ name.toList, isFilenameChar c = true := by
  unfold validFilename
  rw [Bool.and_eq_true, Bool.and_eq_true, List.isSuffixOf_iff_suffix, decide_eq_true_iff,
    List.all_eq_true, and_assoc]

theorem ServableName.plain {name : String} (h : ServableName name) : PlainElement name.toList := by
  have hlen : 5 < name.toList.length := h.stem
  refine ⟨fun hs => ?_, ?_, ?_, ?_⟩
  · have hc := h.chars '/' hs
    revert hc
    decide
  all_goals
    intro he
    rw [he] at hlen
    simp at hlen

/-- The check lets through the last element of what was asked for, when it is servable. -/
theorem validateFilename_ok_iff (filename name : String) : validateFilename filename = .ok name ↔
    filename ≠ "" ∧ filename.utf8ByteSize ≤ maxFilenameLength ∧ name = base filename
      ∧ ServableName name := by
  unfold validateFilename
  split
  · rename_i hempty
    exact iff_of_false (fun h => by cases h) fun h => h.1 hempty
  rename_i hempty
  split
  · rename_i hlong
    exact iff_of_false (fun h => by cases h) fun h => absurd h.2.1 (by omega)
  rename_i hlong
  dsimp only
  generalize base filename = b
  have hname : ServableName b ↔ ¬ (hasDotDot b = true ∨ b.toList.head? = some '/'
      ∨ b.toList.head? = some '\\') ∧ validFilename b = true := by
    rw [hasDotDot_iff, validFilename_iff]
    constructor
    · intro h
      refine ⟨?_, h.suffix, h.stem, h.chars⟩
      rintro (hd | hc | hc)
      · exact h.dotdot hd
      · have hin := h.chars _ (List.mem_of_mem_head? hc)
        revert hin
        decide
      · have hin := h.chars _ (List.mem_of_mem_head? hc)
        revert hin
        decide
    · rintro ⟨hnot, hsuffix, hstem, hchars⟩
      exact ⟨hchars, hsuffix, hstem, fun hd => hnot (.inl hd)⟩
  constructor
  · intro h
    split at h
    · cases h
    rename_i hnot
    split at h
    · rename_i hvalid
      obtain rfl : b = name := Except.ok.inj h
      exact ⟨hempty, by omega, rfl, hname.mpr ⟨hnot, hvalid⟩⟩
    · cases h
  · rintro ⟨-, -, rfl, h⟩
    obtain ⟨hnot, hvalid⟩ := hname.mp h
    rw [if_neg hnot, if_pos hvalid]

theorem validateFilename_not_denied (filename : String) :
    validateFilename filename ≠ .error "access denied" := by
  unfold validateFilename
  dsimp only
  intro he
  repeat' split at he
  all_goals first
    | cases he
    | exact absurd (Except.error.inj he) (by decide)

/-! ## The path -/

theorem join_pcaps {name : String} (h : ServableName name) :
    join ["pcaps", name] = "pcaps/" ++ name := by
  rw [join_two (by decide), pcaps_toList, (clean_two plain_pcaps h.plain).1]
  refine String.ext ?_
  rw [String.toList_ofList, String.toList_append, pcaps_slash, List.append_assoc]
  rfl

/-- The absolute path of a file in `pcaps` is the absolute `pcaps` and its name. -/
theorem abs_pcaps {name : String} (h : ServableName name) (wd : String) :
    Filepath.abs wd ("pcaps/" ++ name) = Filepath.abs wd "pcaps" ++ "/" ++ name := by
  have hlong : ("pcaps/" ++ name).toList = pcapsElement ++ '/' :: name.toList := by
    rw [String.toList_append, pcaps_slash, List.append_assoc]
    rfl
  have hhead : ∀ rest, ¬ (pcapsElement ++ rest).head? = some '/' := by
    intro rest hc
    exact absurd (Option.some.inj hc) (by decide)
  have hshort := hhead []
  rw [List.append_nil] at hshort
  obtain ⟨htwo, hone⟩ := clean_two plain_pcaps h.plain
  unfold Filepath.abs
  rw [hlong, if_neg (hhead _), pcaps_toList, if_neg hshort]
  by_cases hwd : wd = ""
  · have hne : "pcaps/" ++ name ≠ "" := fun he => by
      rw [he] at hlong
      cases hlong
    subst hwd
    rw [join_empty hne, join_empty (by decide), ← String.ofList_toList (s := "pcaps/" ++ name), hlong,
      ← String.ofList_toList (s := "pcaps"), pcaps_toList, htwo, hone]
    refine String.ext ?_
    simp
  · have hne : wd.toList ≠ [] := fun he => hwd (String.ext he)
    have hconcat := clean_concat plain_pcaps h.plain wd.toList hne
    rw [String.ofList_toList] at hconcat
    rw [join_two hwd, join_two hwd, hlong, pcaps_toList]
    exact hconcat

/-- A name that was let through is found in `pcaps`, or is the name of the startup file. -/
theorem resolvePcapPath_eq {name : String} (h : ServableName name) (wd : String)
    (stat : String → Bool) (replayFile : String) :
    resolvePcapPath (some wd) stat replayFile name
      = if stat (Filepath.abs wd "pcaps" ++ "/" ++ name) then .ok ("pcaps/" ++ name)
        else if replayFile ≠ "" ∧ base replayFile = name ∧ stat replayFile then .ok replayFile
        else .error "pcap file not found" := by
  unfold resolvePcapPath
  dsimp only
  rw [join_pcaps h, abs_pcaps h]
  have hpre : ¬ (Filepath.abs wd "pcaps" ++ "/").toList.isPrefixOf
      (Filepath.abs wd "pcaps" ++ "/" ++ name).toList = false := by
    rw [Bool.not_eq_false, List.isPrefixOf_iff_prefix]
    exact ⟨name.toList, String.toList_append.symm⟩
  rw [if_neg hpre]

theorem validateFilename_long {filename : String} (hlen : maxFilenameLength < filename.utf8ByteSize) :
    validateFilename filename = .error "filename too long (max 255 characters)" := by
  have hempty : filename ≠ "" := by
    rintro rfl
    exact absurd hlen (by decide)
  unfold validateFilename
  rw [if_neg hempty, if_pos hlen]

/-- Directories in front of a servable name are not looked at, but they count as length. -/
theorem servedPath_directory {name : String} (h : ServableName name) (wd : Option String)
    (stat : String → Bool) (replayFile d : String) :
    servedPath wd stat replayFile (d ++ "/" ++ name)
      = if (d ++ "/" ++ name).utf8ByteSize ≤ maxFilenameLength then
          servedPath wd stat replayFile name
        else .error "filename too long (max 255 characters)" := by
  by_cases hlen : (d ++ "/" ++ name).utf8ByteSize ≤ maxFilenameLength
  · rw [if_pos hlen]
    have hpath : (d ++ "/" ++ name).toList = (d.toList ++ ['/']) ++ name.toList := by simp
    have hbase : base (d ++ "/" ++ name) = name := base_concat h.plain (.inr ⟨_, rfl⟩) hpath
    have hself : base name = name := base_concat h.plain (.inl rfl) rfl
    have hempty : name ≠ "" := fun he => h.plain.nonempty (by rw [he]; rfl)
    have hempty' : d ++ "/" ++ name ≠ "" := fun he => by
      rw [he] at hpath
      exact h.plain.nonempty (List.append_eq_nil_iff.mp hpath.symm).2
    have hlen' : name.utf8ByteSize ≤ maxFilenameLength := by
      rw [String.utf8ByteSize_append] at hlen
      omega
    have hlong : validateFilename (d ++ "/" ++ name) = .ok name :=
      (validateFilename_ok_iff ..).mpr ⟨hempty', hlen, hbase.symm, h⟩
    have hshort : validateFilename name = .ok name :=
      (validateFilename_ok_iff ..).mpr ⟨hempty, hlen', hself.symm, h⟩
    unfold servedPath
    rw [hlong, hshort]
  · rw [if_neg hlen]
    unfold servedPath
    rw [validateFilename_long (Nat.lt_of_not_ge hlen)]

/--
Whatever name is sent and wherever the server runs, a request that opens a file opens one
whose absolute path is the absolute `pcaps`, a slash and one plain name, the last element
of what was sent, or else the file the server was started on, by its name; directories in
front of a name that is served are not looked at, unless they make it too long; and no
request is denied for leaving the directory.
-/
theorem servedPath_inside (wd : Option String) (stat : String → Bool) (replayFile filename : String) :
    servedPath wd stat replayFile filename ≠ .error "access denied"
      ∧ (∀ path, servedPath wd stat replayFile filename = .ok path →
        ∃ dir, wd = some dir ∧ ServableName (base filename)
          ∧ ((path = "pcaps/" ++ base filename
              ∧ Filepath.abs dir path = Filepath.abs dir "pcaps" ++ "/" ++ base filename
              ∧ stat (Filepath.abs dir path) = true)
            ∨ (path = replayFile ∧ base replayFile = base filename ∧ stat replayFile = true
              ∧ stat (Filepath.abs dir ("pcaps/" ++ base filename)) = false)))
      ∧ ∀ d, ServableName filename →
        servedPath wd stat replayFile (d ++ "/" ++ filename)
          = if (d ++ "/" ++ filename).utf8ByteSize ≤ maxFilenameLength then
              servedPath wd stat replayFile filename
            else .error "filename too long (max 255 characters)" := by
  refine and_assoc.mp ⟨?_, fun d h => servedPath_directory h wd stat replayFile d⟩
  unfold servedPath
  cases hv : validateFilename filename with
  | error e =>
    refine ⟨fun he => ?_, fun path hp => by cases hp⟩
    exact validateFilename_not_denied filename (hv.trans he)
  | ok name =>
    obtain ⟨-, -, rfl, hname⟩ := (validateFilename_ok_iff ..).mp hv
    cases wd with
    | none => exact ⟨fun he => absurd (Except.error.inj he) (by decide), fun path hp => by cases hp⟩
    | some dir =>
      simp only [resolvePcapPath_eq hname, abs_pcaps hname]
      refine ⟨fun he => ?_, fun path hp => ⟨dir, rfl, hname, ?_⟩⟩
      · split at he
        · cases he
        split at he
        · cases he
        · exact absurd (Except.error.inj he) (by decide)
      · split at hp
        · rename_i hstat
          obtain rfl := Except.ok.inj hp
          rw [abs_pcaps hname]
          exact .inl ⟨rfl, rfl, hstat⟩
        rename_i hstat
        split at hp
        · rename_i hfile
          obtain rfl := Except.ok.inj hp
          exact .inr ⟨rfl, hfile.2.1, hfile.2.2, Bool.of_not_eq_true hstat⟩
        · cases hp

end Etherchimp
