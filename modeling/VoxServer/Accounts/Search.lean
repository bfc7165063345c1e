import VoxServer.Store.User

/-! # Searching users by name

The search passes the query on as a pattern with a wildcard at its end. A query of ASCII that
has no wildcard itself finds the names that start with it, ignoring case. In any other query
`%` and `_` stand for other characters as well, a NUL ends the pattern, and other bytes are
read as characters, which have other spellings; so names that do not start with the query are
found too.
-/

namespace VoxServer.Accounts

open Table Sql UserRepository

/-- Whether the name starts with the query, up to the case of ASCII letters. -/
def startsWith (query name : String) : Bool :=
  (query.toList.map Char.toLower).isPrefixOf (name.toList.map Char.toLower)

/-- The users that a search is meant to find. -/
def candidates (query : String) (db : Database) : List UserRecord :=
  db.users.filter fun u => startsWith query u.username ∧ u.disabledAt = none

/-- The search returns the first of the users that it is meant to find, by their names, and no other
user. -/
def FindsFirst (query : String) (limit : UInt64) (db : Database) : Prop :=
  ∃ byName : List UserRecord, byName.Perm (candidates query db) ∧
    byName.Pairwise (·.username ≤ ·.username) ∧
    searchByUsernamePrefix query limit db =
      some (byName.take (min limit.toNat (candidates query db).length))

/-- The text is of ASCII, without NUL and wildcards. -/
def Plain (text : String) : Prop :=
  ∀ c ∈ text.toList, 0 < c.toNat ∧ c.toNat < 0x80 ∧ c ≠ '%' ∧ c ≠ '_'

instance (text : String) : Decidable (Plain text) := List.decidableBAll _ _

section Patterns

variable {query name : String}

theorem startsWith_iff : startsWith query name ↔
    (bytesOf query).map foldCase <+: (bytesOf name).map foldCase := by
  have hbytes : ∀ text : String,
      (bytesOf text).map foldCase = (text.toList.map Char.toLower).map Char.toNat := by
    intro text
    rw [bytesOf, List.map_map, List.map_map]
    exact List.map_congr_left fun c _ => (toNat_toLower c).symm
  rw [startsWith, List.isPrefixOf_iff_prefix, hbytes, hbytes,
    List.prefix_map_iff_of_injective fun _ _ => Char.toNat_inj.mp]

theorem bytesOf_pattern (query : String) :
    bytesOf (query ++ "%") = bytesOf query ++ [matchAll] := by
  simp [bytesOf, matchAll]

theorem isLike_pattern_iff (hnul : 0 ∉ bytesOf query)
    (h₁ : matchAll ∉ characters none (bytesOf query))
    (h₂ : matchOne ∉ characters none (bytesOf query)) : isLike name (query ++ "%") ↔
      (characters none (bytesOf query)).map foldCase <+:
        (characters none (bytesOf name)).map foldCase := by
  rw [isLike, bytesOf_pattern, characters_append_percent hnul, like_append_percent_iff h₁ h₂]

theorem isLike_iff_of_plain (h : Plain query) :
    isLike name (query ++ "%") ↔ startsWith query name := by
  have hascii : ∀ b ∈ bytesOf query, 0 < b ∧ b < 0x80 ∧ b ≠ matchAll ∧ b ≠ matchOne := by
    intro b hb
    obtain ⟨c, hc, rfl⟩ := List.mem_map.mp hb
    obtain ⟨hpos, hlt, hall, hone⟩ := h c hc
    exact ⟨hpos, hlt, fun he => hall (Char.toNat_inj.mp he), fun he => hone (Char.toNat_inj.mp he)⟩
  have hbytes : ∀ b ∈ bytesOf query, 0 < b ∧ b < 0x80 :=
    fun b hb => ⟨(hascii b hb).1, (hascii b hb).2.1⟩
  have hchars := characters_of_ascii hbytes
  rw [isLike_pattern_iff, hchars, isPrefix_characters_iff hbytes, startsWith_iff]
  · exact fun hmem => (hascii 0 hmem).1.false
  · rw [hchars]
    exact fun hmem => (hascii _ hmem).2.2.1 rfl
  · rw [hchars]
    exact fun hmem => (hascii _ hmem).2.2.2 rfl

def fillChar (c : Char) : Char := if c = '%' ∨ c = '_' then 'x' else c

theorem toNat_fillChar (c : Char) : (fillChar c).toNat =
    if c.toNat = matchAll ∨ c.toNat = matchOne then 0x78 else c.toNat := by
  have hall : c.toNat = matchAll ↔ c = '%' := Char.toNat_inj (d := '%')
  have hone : c.toNat = matchOne ↔ c = '_' := Char.toNat_inj (d := '_')
  simp only [hall, hone, fillChar]
  split <;> rfl

theorem exists_isLike_of_not_plain (h : ¬ Plain query) :
    ∃ name, isLike name (query ++ "%") ∧ ¬ startsWith query name := by
  by_cases hnul : '\x00' ∈ query.toList
  · -- The part before the NUL is all of the pattern.
    obtain ⟨before, rest, hsplit⟩ := List.append_of_mem hnul
    have hbytes : bytesOf query =
        bytesOf (String.ofList before) ++ 0 :: rest.map Char.toNat := by
      simp [bytesOf, hsplit]
    refine ⟨String.ofList before, ?_, fun hstarts => ?_⟩
    · rw [isLike, bytesOf_pattern, hbytes, List.append_assoc, List.cons_append, characters_nul]
      exact like_self
    · have hle := (startsWith_iff.mp hstarts).length_le
      simp [hbytes] at hle
  have hzero : 0 ∉ bytesOf query := by
    intro hmem
    obtain ⟨c, hc, he⟩ := List.mem_map.mp hmem
    have hchar : c = '\x00' := Char.toNat_inj.mp he
    exact hnul (hchar ▸ hc)
  by_cases hwild : matchAll ∈ bytesOf query ∨ matchOne ∈ bytesOf query
  · -- A letter for each wildcard is found.
    have hbytes : bytesOf (String.ofList (query.toList.map fillChar)) = fill (bytesOf query) := by
      rw [bytesOf, String.toList_ofList, List.map_map, bytesOf, fill, List.map_map]
      exact List.map_congr_left fun c _ => toNat_fillChar c
    refine ⟨String.ofList (query.toList.map fillChar), ?_, fun hstarts => ?_⟩
    · rw [isLike, bytesOf_pattern, characters_append_percent hzero, hbytes, characters_fill hzero]
      exact like_fill
    · rw [startsWith_iff, hbytes] at hstarts
      exact fold_fill_ne hwild hstarts
  -- Another spelling of the query is found.
  have hbytes : bytesOf (textOf (respell false (bytesOf query))) = respell false (bytesOf query) :=
    bytesOf_textOf fun b => lt_of_mem_respell
  refine ⟨textOf (respell false (bytesOf query)), ?_, fun hstarts => ?_⟩
  · rw [isLike, bytesOf_pattern, characters_append_percent hzero, hbytes]
    refine (congrArg _ (characters_respell none hzero)).trans ?_
    exact like_append_percent_self
  · rw [startsWith_iff, hbytes] at hstarts
    refine not_isPrefix_respell ?_ hstarts
    simp only [Plain, not_forall] at h
    obtain ⟨c, hc, hnot⟩ := h
    refine ⟨c.toNat, List.mem_map_of_mem hc, ?_⟩
    by_contra hlt
    have hpos : c.toNat ≠ 0 := fun he => hzero (he ▸ List.mem_map_of_mem hc)
    refine hnot ⟨by omega, by omega, ?_, ?_⟩
    · rintro rfl
      exact hwild (.inl (List.mem_map_of_mem hc))
    · rintro rfl
      exact hwild (.inr (List.mem_map_of_mem hc))

end Patterns

section Search

variable {query : String} {limit : UInt64} {db : Database}

theorem findsFirst_of_isLike_iff (hquery : query ≠ "")
    (hlength : query.toList.length < maxPatternLength) (hrows : db.users.length < 2 ^ 63)
    (h : ∀ u ∈ db.users, isLike u.username (query ++ "%") ↔ startsWith query u.username) :
    FindsFirst query limit db := by
  have hfilter : (db.users.filter fun u =>
      isLike u.username (query ++ "%") ∧ u.disabledAt = none) = candidates query db := by
    refine List.filter_congr fun u hu => ?_
    rw [decide_eq_decide, h u hu]
  have hcandidates : (candidates query db).length < 2 ^ 63 :=
    (List.length_filter_le _ _).trans_lt hrows
  have hpattern : ¬ (query ++ "%").toList.length > maxPatternLength := by
    rw [String.toList_append, List.length_append]
    exact not_lt.mpr hlength
  refine ⟨(candidates query db).insertionSort fun u v => u.username ≤ v.username,
    List.perm_insertionSort _ _, pairwise_insertionSort_key UserRecord.username _, ?_⟩
  rw [searchByUsernamePrefix, if_neg hquery, if_neg fun hthrows => hpattern hthrows.1, hfilter,
    applyLimit_toInt64 (by rwa [List.length_insertionSort])]
  rw [List.take_eq_take_min, List.length_insertionSort]

def oneUser (name : String) : Database :=
  ((UserCall.createUser ⟨"u", name, "", "", 0, none, 0, "", "", ""⟩).exec {}).2

theorem oneUser_valid (name : String) : (oneUser name).Valid :=
  (UserCall.exec_effect _ _).valid (by decide)

theorem users_oneUser (name : String) :
    (oneUser name).users = [⟨"u", name, "", "", 0, none, 0, "", "", ""⟩] := rfl

theorem not_findsFirst_of_isLike {name : String} (hquery : query ≠ "")
    (hlike : isLike name (query ++ "%")) (hstarts : ¬ startsWith query name) :
    ¬ FindsFirst query 1 (oneUser name) := by
  rintro ⟨byName, hperm, -, hsearch⟩
  have hnone : candidates query (oneUser name) = [] := by
    simp [candidates, users_oneUser, hstarts]
  rw [hnone] at hperm hsearch
  simp [searchByUsernamePrefix, hquery, users_oneUser, hlike, applyLimit, hperm.eq_nil] at hsearch

theorem not_findsFirst_of_length {name : String} (hquery : query ≠ "")
    (hlength : maxPatternLength ≤ query.toList.length) : ¬ FindsFirst query 1 (oneUser name) := by
  rintro ⟨byName, -, -, hsearch⟩
  have hpattern : (query ++ "%").toList.length > maxPatternLength := by
    rw [String.toList_append, List.length_append]
    exact Nat.lt_succ_of_le hlength
  rw [searchByUsernamePrefix, if_neg hquery, if_pos ⟨hpattern, by simp [users_oneUser], by decide⟩]
    at hsearch
  cases hsearch

/-- A query finds the names that start with it, whoever the users are, exactly if it is of ASCII,
has no NUL and no wildcard, and is not too long. -/
theorem findsFirst_iff (hquery : query ≠ "") :
    (∀ db limit, db.Valid → db.users.length < 2 ^ 63 → FindsFirst query limit db) ↔
      Plain query ∧ query.toList.length < maxPatternLength := by
  refine ⟨fun h => ⟨?_, ?_⟩, ?_⟩
  · by_contra hplain
    obtain ⟨name, hlike, hstarts⟩ := exists_isLike_of_not_plain hplain
    exact not_findsFirst_of_isLike hquery hlike hstarts
      (h (oneUser name) 1 (oneUser_valid name) (by simp [users_oneUser]))
  · by_contra hlength
    exact not_findsFirst_of_length hquery (not_lt.mp hlength)
      (h (oneUser "") 1 (oneUser_valid "") (by simp [users_oneUser]))
  · rintro ⟨hplain, hlength⟩ db limit - hrows
    exact findsFirst_of_isLike_iff hquery hlength hrows fun u _ => isLike_iff_of_plain hplain

/-- The name of a user who is not meant is like the query, as its underscore stands for any
character. -/
theorem underscore_finds_other : ¬ FindsFirst "a_b" 10 (oneUser "axb") := by
  rintro ⟨byName, hperm, -, hsearch⟩
  have hnone : candidates "a_b" (oneUser "axb") = [] := by decide
  rw [hnone] at hperm hsearch
  have hfound : searchByUsernamePrefix "a_b" 10 (oneUser "axb") = some (oneUser "axb").users := by
    decide
  rw [hfound, hperm.eq_nil] at hsearch
  cases hsearch

theorem alice_finds_first : "alice" ≠ "" ∧ Plain "alice" ∧
    ∀ db limit, db.Valid → db.users.length < 2 ^ 63 → FindsFirst "alice" limit db :=
  ⟨by decide, by decide, (findsFirst_iff (by decide)).mpr (by decide)⟩

end Search

end VoxServer.Accounts
