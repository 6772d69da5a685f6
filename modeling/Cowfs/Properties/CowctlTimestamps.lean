import Cowfs.Properties.RequestPath
import Cowfs.Properties.CleanRollback
import Cowfs.Properties.TableRefinement

/-!
# The timestamps of `cowctl`

`cowctl list` prints the time of a version as a date and a time of day, `cowctl rollback` reads
the number its argument begins with: given a printed time it sends the year, and the kernel looks
for a version taken that many nanoseconds after the beginning of 1970.  There is one such time
that is printed with its own number in front, the year local time had then.

An argument in which no number is found is sent as 0, and 0 asks for the latest version.
-/

namespace Cowfs

variable {env : Env} {s : State} {zone : Zone} {path : CStr} {ts : UInt64} {v : CowVersion}
  {φ : RollbackFaults}

/-! ## What is listed and what is selected -/

/-- What the reply to a listing says of a version. -/
def listInfo (v : CowVersion) : CowfsVersionInfo :=
  ⟨v.timestamp, v.opType, strscpy pathBufSize v.shadowPath⟩

/-- The versions the kernel lists for `cowctl list path`. -/
def listed (env : Env) (s : State) (path : CStr) : List CowVersion :=
  match pathToLowerIno env s (path.take 511) none with
  | .error _ => []
  | .ok ino => versionList env.hash s.store.table ino (listCount (cmdListReq path).maxCount)

/-- The request makes the kernel act on version `v` of the file at its path. -/
def Selects (env : Env) (s : State) (req : CowfsRollbackReq) (φ : RollbackFaults)
    (v : CowVersion) : Prop :=
  ∃ str p, readString req.path.chars = some str ∧
    chosen env s str req.timestamp φ = .ok (.found p v)

/-- A listing that is answered found a file at the path, and shows the newest of its versions. -/
lemma listed_of_reply (hpath : nul ∉ path) {ψ : ListFaults} {infos : List CowfsVersionInfo}
    (h : ioctlListAt env s (cmdListReq path).path.chars (cmdListReq path).maxCount ψ =
      some (.ok infos)) :
    ∃ p, cowfsPath env s (path.take 511) none = .ok p ∧
      listed env s path = (tableView env.hash s.store.table (s.lower.inoOf p.file)).take 32 ∧
      infos = (listed env s path).map listInfo := by
  have hread : readString (cmdListReq path).path.chars = some (path.take 511) :=
    readString_requestPath hpath
  rw [ioctlListAt_of_string hread, Option.some.injEq] at h
  obtain ⟨ino, hino, rfl⟩ := ioctlList_answered h
  obtain ⟨p, hp, rfl⟩ := place_of_pathToLowerIno hino
  rw [cowfsPath_none hp] at hp
  have hlisted : listed env s path =
      versionList env.hash s.store.table (s.lower.inoOf p.file)
        (listCount (cmdListReq path).maxCount) := by
    rw [listed, pathToLowerIno_of_place hp]
  refine ⟨p, hp, ?_, ?_⟩
  · rw [hlisted, versionList_eq]
    rfl
  · rw [hlisted]
    rfl

/-- On a path that leads to a file, a request selects what `cowfs_version_find` finds. -/
lemma selects_iff (hpath : nul ∉ path) {p : Place}
    (hp : cowfsPath env s (path.take 511) none = .ok p) {tsStr : Option CStr}
    (hcopy : φ.copyIn = false) (hφ : φ.path = none) (hφ₂ : φ.path₂ = none) :
    Selects env s (cmdRollbackReq path tsStr) φ v ↔
      versionFind env.hash s.store.table (s.lower.inoOf p.file) (requestTimestamp tsStr) =
        some v := by
  have hread : readString (cmdRollbackReq path tsStr).path.chars = some (path.take 511) :=
    readString_requestPath hpath
  constructor
  · rintro ⟨str, q, hstr, hchosen⟩
    obtain rfl := Option.some.inj (hread.symm.trans hstr)
    obtain ⟨hq, hfind⟩ := chosen_version hchosen
    rw [hφ₂] at hq
    obtain rfl := cowfsPath_unique hp hq
    exact hfind
  · intro hfind
    refine ⟨path.take 511, p, hread, ?_⟩
    unfold chosen
    simp only [hcopy, hφ, hφ₂, pathToLowerIno_of_place hp, cmdRollbackReq, hfind, hp,
      Bool.false_eq_true, if_false]

/-! ## Reading a printed time -/

/-- The year of local time at the beginning of 1970 UTC, as a timestamp. -/
def epochYear (zone : Zone) : UInt64 := if zone.offset 0 < 0 then 1969 else 1970

lemma timeText_ne_latest (zone : Zone) (ts : UInt64) : timeText zone ts ≠ latestArg := by
  intro h
  have hdash : '-' ∈ timeText zone ts := by simp [timeText, strftime]
  rw [h] at hdash
  revert hdash
  decide

lemma requestTimestamp_of_ne {arg : CStr} (h : arg ≠ latestArg) :
    requestTimestamp (some arg) = strtoull arg := if_pos h

/-- What is sent for a printed time: the year, which is neither 0 nor as large as a second. -/
lemma requestTimestamp_timeText (zone : Zone) (ts : UInt64) :
    (requestTimestamp (some (timeText zone ts))).toNat =
        ((localtime zone (ts / 1000000000).toNat).tmYear + 1900).toNat ∧
      0 < (requestTimestamp (some (timeText zone ts))).toNat ∧
      (requestTimestamp (some (timeText zone ts))).toNat < 1000000000 := by
  have hlt := ts.toNat_lt
  have hsecs : (ts / 1000000000).toNat = ts.toNat / 1000000000 := UInt64.toNat_div _ _
  have hyear := localtime_year_bounds zone (t := (ts / 1000000000).toNat) (by omega)
  rw [requestTimestamp_of_ne (timeText_ne_latest zone ts), timeText,
    strtoull_strftime hyear.1 (by omega), UInt64.toNat_ofNat_of_lt' (by
      simp only [UInt64.size]
      omega)]
  omega

/-- A printed time is read as its own timestamp in one case. -/
lemma requestTimestamp_eq_iff (zone : Zone) (ts : UInt64) :
    requestTimestamp (some (timeText zone ts)) = ts ↔ ts = epochYear zone := by
  obtain ⟨hyear, -, hlt⟩ := requestTimestamp_timeText zone ts
  have hsecs : (ts / 1000000000).toNat = ts.toNat / 1000000000 := UInt64.toNat_div _ _
  -- in the first second the year is that of the epoch
  have hfirst : ts.toNat < 1000000000 →
      (requestTimestamp (some (timeText zone ts))).toNat = (epochYear zone).toNat := by
    intro hsmall
    have hzero : (ts / 1000000000).toNat = 0 := by omega
    rw [hyear, hzero, Nat.cast_zero, localtime_year_zero, epochYear]
    split_ifs <;> rfl
  constructor
  · intro h
    rw [h] at hlt hfirst
    exact UInt64.toNat_inj.1 (hfirst hlt)
  · intro h
    have hsmall : (epochYear zone).toNat < 1000000000 := by
      unfold epochYear
      split_ifs <;> decide
    rw [← UInt64.toNat_inj, hfirst (h ▸ hsmall), ← h]

/-! ## What a request selects -/

/-- A version shown is found under its own timestamp. -/
lemma versionFind_of_shown {ino : UInt64}
    (hnd : (((tableView env.hash s.store.table ino).take 32).map CowVersion.timestamp).Nodup)
    (hv : v ∈ (tableView env.hash s.store.table ino).take 32) (hne : v.timestamp ≠ 0) :
    versionFind env.hash s.store.table ino v.timestamp = some v := by
  rw [versionFind_eq, ← List.take_append_drop 32 (tableView env.hash s.store.table ino),
    List.find?_append, find_timestamp hnd hv hne, Option.some_or]

/-- A request that names a nonzero timestamp selects the version shown with it. -/
lemma versionFind_shown_iff {ino : UInt64}
    (hnd : (((tableView env.hash s.store.table ino).take 32).map CowVersion.timestamp).Nodup)
    (hv : v ∈ (tableView env.hash s.store.table ino).take 32) (hts : ts ≠ 0) :
    versionFind env.hash s.store.table ino ts = some v ↔ ts = v.timestamp := by
  constructor
  · intro hfind
    exact ((versionFind_mem hfind).2.resolve_left hts).symm
  · rintro rfl
    exact versionFind_of_shown hnd hv hts

lemma map_timestamp_listInfo (vs : List CowVersion) :
    (vs.map listInfo).map CowfsVersionInfo.timestamp = vs.map CowVersion.timestamp := by
  rw [List.map_map]
  rfl

/-- Every version shown has a row, which begins with its printed time. -/
lemma cmdList_row (zone : Zone) (path : CStr) {vs : List CowVersion} (hv : v ∈ vs) :
    ∃ row ∈ cmdList zone path (vs.map listInfo), timeText zone v.timestamp <+: row := by
  have hinfo : listInfo v ∈ vs.map listInfo := List.mem_map_of_mem hv
  have hrow : listRow zone (listInfo v) ∈ cmdList zone path (vs.map listInfo) := by
    have hmem : listRow zone (listInfo v) ∈ (vs.map listInfo).map (listRow zone) :=
      List.mem_map_of_mem hinfo
    rw [cmdList, listText, if_neg (List.ne_nil_of_mem hmem)]
    simp only [List.mem_cons]
    exact .inr (.inr (.inr hmem))
  refine ⟨_, hrow, ?_⟩
  rw [listRow, rowText, padRight, List.append_assoc]
  exact List.prefix_append _ _

/-- **When the timestamps of `cowctl` can be given back.**  Among the versions shown for a file,
with distinct timestamps, each in a row that begins with its printed time, this time selects the
version exactly when its timestamp is the number of the year local time had at the beginning of
1970; and an argument that is neither `latest` nor a numeral is sent as something else than 0
exactly when it begins, after white space and a sign, with digits that are not all `0`. -/
theorem cowctl_timestamps_iff (env : Env) (s : State) (zone : Zone) (path : CStr)
    (hpath : nul ∉ path) :
    (∀ ψ infos,
      ioctlListAt env s (cmdListReq path).path.chars (cmdListReq path).maxCount ψ =
          some (.ok infos) →
        (infos.map CowfsVersionInfo.timestamp).Nodup →
          infos = (listed env s path).map listInfo ∧
            ∀ v ∈ listed env s path,
              (∃ row ∈ cmdList zone path infos, timeText zone v.timestamp <+: row) ∧
                ∀ φ : RollbackFaults, φ.copyIn = false → φ.path = none → φ.path₂ = none →
                  (Selects env s (cmdRollbackReq path (some (timeText zone v.timestamp))) φ v ↔
                    v.timestamp = epochYear zone)) ∧
    ∀ arg, arg ≠ latestArg → ¬ Numeral arg →
      ((cmdRollbackReq path (some arg)).timestamp ≠ 0 ↔ BeginsNonzero arg) := by
  constructor
  · intro ψ infos hreply hnd
    obtain ⟨p, hp, hlisted, hinfos⟩ := listed_of_reply hpath hreply
    refine ⟨hinfos, fun v hv => ⟨?_, fun φ hcopy hφ hφ₂ => ?_⟩⟩
    · rw [hinfos]
      exact cmdList_row zone path hv
    rw [hinfos, map_timestamp_listInfo, hlisted] at hnd
    rw [hlisted] at hv
    have hsent : requestTimestamp (some (timeText zone v.timestamp)) ≠ 0 := by
      have hpos := (requestTimestamp_timeText zone v.timestamp).2.1
      intro hzero
      rw [hzero] at hpos
      exact absurd hpos (by decide)
    rw [selects_iff hpath hp hcopy hφ hφ₂, versionFind_shown_iff hnd hv hsent,
      requestTimestamp_eq_iff]
  · intro arg hlatest _
    rw [cmdRollbackReq, requestTimestamp_of_ne hlatest, strtoull_ne_zero]

/-- The timestamp itself, in decimal, selects the version. -/
theorem numeral_selects (hpath : nul ∉ path) {ψ : ListFaults} {infos : List CowfsVersionInfo}
    (hreply : ioctlListAt env s (cmdListReq path).path.chars (cmdListReq path).maxCount ψ =
      some (.ok infos)) (hnd : (infos.map CowfsVersionInfo.timestamp).Nodup)
    (hv : v ∈ listed env s path) (hne : v.timestamp ≠ 0) (hcopy : φ.copyIn = false)
    (hφ : φ.path = none) (hφ₂ : φ.path₂ = none) :
    Selects env s (cmdRollbackReq path (some (decimal v.timestamp.toNat))) φ v := by
  obtain ⟨p, hp, hlisted, hinfos⟩ := listed_of_reply hpath hreply
  rw [hinfos, map_timestamp_listInfo, hlisted] at hnd
  rw [hlisted] at hv
  have hlatest : decimal v.timestamp.toNat ≠ latestArg := by
    intro h
    have hdigits := (numeral_decimal v.timestamp.toNat).2
    rw [h] at hdigits
    exact absurd (hdigits 'l' List.mem_cons_self) (by decide)
  have hread : strtoull (decimal v.timestamp.toNat) = v.timestamp := by
    have hback : strtoull (decimal v.timestamp.toNat ++ []) = _ :=
      strtoull_decimal v.timestamp.toNat_lt rfl
    rwa [List.append_nil, UInt64.ofNat_toNat] at hback
  rw [selects_iff hpath hp hcopy hφ hφ₂, requestTimestamp_of_ne hlatest, hread]
  exact versionFind_of_shown hnd hv hne

/-! ## A file written once -/

/-- `/m/x` -/
def shownPath : CStr := ['/', 'm', '/', 'x']

/-- The file at that path was made and written, at `now`. -/
def shownAt (now : UInt64) : State :=
  run (step smallEnv) (State.init smallTree fun _ => none)
    [.mount ['/', 'l'] none none, .make sIFREG 1 ['x'] 0x1A4#16 ⟨0, 0, 0⟩ 10 1 none,
      .open 0 4 true none, .write 0 0 [1, 2] now .clean none]

/-- The version of the write. -/
def shownVersion (now : UInt64) : CowVersion where
  timestamp := now
  opType := .write
  shadowPath := ['/', 'l', '/'] ++ shadowDir ++ '/' :: decimalPair 10 now.toNat
  origName := []
  savedStat := ⟨sIFREG ||| 0x1A4#16, 0, 0, 1⟩
  hasData := true
  node := 0

/-- `2024-06-11 11:59:10` -/
def juneText : CStr :=
  ['2', '0', '2', '4', '-', '0', '6', '-', '1', '1', ' ', '1', '1', ':', '5', '9', ':', '1',
    '0']

/-- `yesterday` -/
def wordArg : CStr := ['y', 'e', 's', 't', 'e', 'r', 'd', 'a', 'y']

/-- The one printed time that works, and an argument that is sent as 7. -/
theorem cowctl_timestamps_iff_epoch :
    Selects smallEnv (shownAt 1970)
        (cmdRollbackReq shownPath (some (timeText Zone.utc (shownVersion 1970).timestamp)))
        (.clean ⟨0, 0, 0⟩ 11 3000) (shownVersion 1970) ∧
      (cmdRollbackReq shownPath (some ['7', 'x'])).timestamp ≠ 0 := by
  obtain ⟨hprinted, harg⟩ := cowctl_timestamps_iff smallEnv (shownAt 1970) Zone.utc
    shownPath (by decide)
  have hreply : ioctlListAt smallEnv (shownAt 1970) (cmdListReq shownPath).path.chars
      (cmdListReq shownPath).maxCount .clean = some (.ok [listInfo (shownVersion 1970)]) := by
    decide +kernel
  have hlisted : shownVersion 1970 ∈ listed smallEnv (shownAt 1970) shownPath := by
    decide +kernel
  obtain ⟨-, hselect⟩ := hprinted .clean _ hreply (List.nodup_singleton _)
  obtain ⟨-, hiff⟩ := hselect _ hlisted
  refine ⟨(hiff (.clean ⟨0, 0, 0⟩ 11 3000) rfl rfl rfl).2 (by decide), ?_⟩
  refine (harg ['7', 'x'] (by decide) fun hnum => ?_).2 ?_
  · exact absurd (hnum.2 'x' (by simp)) (by decide)
  · exact ⟨[], [], ['7'], ['x'], rfl, by simp, .inl rfl, by simp, '7', by simp, by decide⟩

/-- The printed time of the only version of a file makes the request fail, and a word that is
not a time at all selects that version. -/
theorem cowctl_timestamps_lost :
    ioctlListAt smallEnv (shownAt 1718107150000000000) (cmdListReq shownPath).path.chars
        (cmdListReq shownPath).maxCount .clean =
          some (.ok [listInfo (shownVersion 1718107150000000000)]) ∧
      timeText Zone.utc (shownVersion 1718107150000000000).timestamp = juneText ∧
      (cmdRollbackReq shownPath (some juneText)).timestamp = 2024 ∧
      ¬ Selects smallEnv (shownAt 1718107150000000000)
        (cmdRollbackReq shownPath (some juneText)) (.clean ⟨0, 0, 0⟩ 11 3000)
        (shownVersion 1718107150000000000) ∧
      wordArg ≠ latestArg ∧ ¬ Numeral wordArg ∧
      (cmdRollbackReq shownPath (some wordArg)).timestamp = 0 := by
  refine ⟨by decide +kernel, by decide +kernel, by decide +kernel, ?_, by decide, fun hnum => ?_,
    by decide +kernel⟩
  · rintro ⟨str, p, hstr, hchosen⟩
    have hread : readString (cmdRollbackReq shownPath (some juneText)).path.chars =
        some shownPath := by decide +kernel
    obtain rfl := Option.some.inj (hread.symm.trans hstr)
    have hnone : chosen smallEnv (shownAt 1718107150000000000) shownPath
        (cmdRollbackReq shownPath (some juneText)).timestamp (.clean ⟨0, 0, 0⟩ 11 3000) =
          .error .enoent := by decide +kernel
    rw [hnone] at hchosen
    cases hchosen
  · exact absurd (hnum.2 'y' (by decide)) (by decide)

end Cowfs
