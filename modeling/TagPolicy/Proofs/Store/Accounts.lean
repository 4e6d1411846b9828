import TagPolicy.Proofs.Context.TagNames
import TagPolicy.Store.Directory

/-!
What a directory without faults guarantees of its accounts. User ids are told apart and every tag that
an account lists is there, but login names are not compared, so the accounts are different subjects
exactly as far as their login names differ.
-/

namespace TagPolicy

open Automatic (eq_of_user_id_tag_mem eq_of_username_tag_mem mem_subject_tags subjectTags userIdTag
  usernameTag)

def Account.identity (account : Account) : Identity := ⟨account.userId, account.username⟩

namespace Directory

/-- What is checked of a directory. -/
structure Valid (directory : Directory) : Prop where
  unreserved : ∀ tag ∈ directory.tags, isAutomaticName tag.name = false
  userIds : (directory.accounts.map Account.userId).Nodup
  known : ∀ account ∈ directory.accounts, ∀ name ∈ account.tags, name ∈ directory.tags.map Tag.name

section Faults

variable {directory : Directory} {names : List String} {seen accounts : List Account}
  {account : Account}

theorem name_fault_eq_none {tag : Tag} :
    tag.nameFault = none ↔ isAutomaticName tag.name = false := by
  rw [Tag.nameFault]
  cases isAutomaticName tag.name <;> simp

theorem unseen_iff :
    (seen.find? fun other => other.userId = account.userId) = none ↔
      account.userId ∉ seen.map Account.userId := by
  simp

theorem all_known_iff :
    (account.tags.find? fun tag => tag ∉ names) = none ↔ ∀ tag ∈ account.tags, tag ∈ names := by
  simp

theorem account_fault_cons :
    accountFault names seen (account :: accounts) = none ↔
      account.userId ∉ seen.map Account.userId ∧ (∀ tag ∈ account.tags, tag ∈ names) ∧
        accountFault names (account :: seen) accounts = none := by
  rw [accountFault, ← unseen_iff, ← all_known_iff]
  cases seen.find? fun other => other.userId = account.userId with
  | some other => simp
  | none =>
      cases account.tags.find? fun tag => tag ∉ names with
      | some tag => simp
      | none => simp

theorem account_fault_eq_none :
    accountFault names seen accounts = none ↔
      ((accounts.map Account.userId).Nodup ∧
        ∀ account ∈ accounts, account.userId ∉ seen.map Account.userId) ∧
          ∀ account ∈ accounts, ∀ tag ∈ account.tags, tag ∈ names := by
  induction accounts generalizing seen with
  | nil => simp [accountFault]
  | cons account accounts induction =>
      have absent : (∀ other ∈ accounts, ¬ other.userId = account.userId) ↔
          account.userId ∉ accounts.map Account.userId := by
        simp
      rw [account_fault_cons, induction]
      simp only [List.forall_mem_cons, List.map_cons, List.nodup_cons]
      simp only [List.mem_cons, not_or, forall_and, absent]
      constructor
      · rintro ⟨fresh, listed, ⟨distinct, new, apart⟩, known⟩
        exact ⟨⟨⟨new, distinct⟩, fresh, apart⟩, listed, known⟩
      · rintro ⟨⟨⟨new, distinct⟩, fresh, apart⟩, listed, known⟩
        exact ⟨fresh, listed, ⟨distinct, new, apart⟩, known⟩

theorem fault_eq_none : directory.fault? = none ↔ directory.Valid := by
  have unreserved : directory.tags.findSome? Tag.nameFault = none ↔
      ∀ tag ∈ directory.tags, isAutomaticName tag.name = false := by
    rw [List.findSome?_eq_none_iff]
    simp only [name_fault_eq_none]
  have accounts : accountFault (directory.tags.map Tag.name) [] directory.accounts = none ↔
      (directory.accounts.map Account.userId).Nodup ∧
        ∀ account ∈ directory.accounts, ∀ name ∈ account.tags,
          name ∈ directory.tags.map Tag.name := by
    rw [account_fault_eq_none]
    simp
  rw [fault?]
  cases badName : directory.tags.findSome? Tag.nameFault with
  | some fault =>
      constructor
      · intro none
        cases none
      · intro valid
        rw [unreserved.mpr valid.unreserved] at badName
        cases badName
  | none =>
      refine accounts.trans ⟨fun sound => ?_, fun valid => ⟨valid.userIds, valid.known⟩⟩
      exact ⟨unreserved.mp badName, sound.1, sound.2⟩

end Faults

section Lookup

theorem nodup_map_iff {α κ : Type} {items : List α} {key : α → κ} :
    (items.map key).Nodup ↔
      ∀ left right : Fin items.length,
        key (items.get left) = key (items.get right) → left = right := by
  rw [List.Nodup, List.pairwise_map, List.pairwise_iff_getElem]
  constructor
  · intro apart left right same
    rcases Nat.lt_trichotomy left right with before | equal | after
    · exact absurd same (apart left right left.2 right.2 before)
    · exact Fin.ext equal
    · exact absurd same.symm (apart right left right.2 left.2 after)
  · intro injective left right insideLeft insideRight before same
    have equal := injective ⟨left, insideLeft⟩ ⟨right, insideRight⟩ same
    exact absurd (Fin.mk.inj equal) (Nat.ne_of_lt before)

variable {directory : Directory} {place : Fin directory.accounts.length} {username : String}
  {identity : Identity}

/-- Looking up a login name finds the first account that has it. -/
theorem account_eq_some :
    directory.account? username = some identity ↔
      ∃ first : Fin directory.accounts.length,
        (directory.accounts.get first).username = username ∧
          (directory.accounts.get first).identity = identity ∧
            ∀ earlier < first, (directory.accounts.get earlier).username ≠ username := by
  rw [account?, Option.map_eq_some_iff]
  simp only [List.find?_eq_some_iff_getElem]
  constructor
  · rintro ⟨account, ⟨named, index, inside, here, before⟩, found⟩
    subst here
    refine ⟨⟨index, inside⟩, by simpa using named, found, fun earlier less => ?_⟩
    simpa using before earlier less
  · rintro ⟨first, named, found, before⟩
    refine ⟨directory.accounts.get first, ⟨by simpa using named, first, first.2, rfl, ?_⟩, found⟩
    intro earlier less
    simpa using before ⟨earlier, Nat.lt_trans less first.2⟩ less

theorem account_own (userIds : (directory.accounts.map Account.userId).Nodup) :
    directory.account? (directory.accounts.get place).username =
        some (directory.accounts.get place).identity ↔
      ∀ earlier < place,
        (directory.accounts.get earlier).username ≠ (directory.accounts.get place).username := by
  rw [account_eq_some]
  constructor
  · rintro ⟨first, -, found, before⟩
    have here : first = place := nodup_map_iff.mp userIds first place (Identity.mk.inj found).1
    rw [← here] at before ⊢
    exact before
  · intro before
    exact ⟨place, rfl, rfl, before⟩

end Lookup

section Subjects

variable {directory : Directory} {left right : Fin directory.accounts.length}
  {navigation : Navigation}

/-- Different entries are different subjects: neither has an automatic tag that says who the other is,
and whoever comes with the login name of an entry is taken for that entry and no other. -/
structure SubjectsApart (directory : Directory) : Prop where
  userIds : ∀ left right : Fin directory.accounts.length, left ≠ right → ∀ navigation,
    userIdTag (directory.accounts.get left).userId ∉
      subjectTags (directory.accounts.get right).identity navigation
  usernames : ∀ left right : Fin directory.accounts.length, left ≠ right → ∀ navigation,
    usernameTag (directory.accounts.get left).username ∉
      subjectTags (directory.accounts.get right).identity navigation
  own : ∀ place : Fin directory.accounts.length,
    directory.account? (directory.accounts.get place).username =
      some (directory.accounts.get place).identity
  other : ∀ left right : Fin directory.accounts.length, left ≠ right →
    directory.account? (directory.accounts.get right).username ≠
      some (directory.accounts.get left).identity

theorem user_id_tag_apart (userIds : (directory.accounts.map Account.userId).Nodup)
    (different : left ≠ right) :
    userIdTag (directory.accounts.get left).userId ∉
      subjectTags (directory.accounts.get right).identity navigation := by
  intro shared
  exact different (nodup_map_iff.mp userIds left right (eq_of_user_id_tag_mem shared).symm)

theorem username_tag_shared :
    usernameTag (directory.accounts.get left).username ∈
        subjectTags (directory.accounts.get right).identity navigation ↔
      (directory.accounts.get left).username = (directory.accounts.get right).username := by
  constructor
  · intro shared
    exact (eq_of_username_tag_mem shared).symm
  · intro same
    rw [mem_subject_tags, same]
    exact Or.inr (Or.inr (Or.inl rfl))

theorem subjects_apart_iff (userIds : (directory.accounts.map Account.userId).Nodup) :
    directory.SubjectsApart ↔ (directory.accounts.map Account.username).Nodup := by
  rw [nodup_map_iff]
  constructor
  · intro apart left right same
    by_cases equal : left = right
    · exact equal
    · exact absurd (username_tag_shared.mpr same) (apart.usernames left right equal .nowhere)
  · intro distinct
    have own : ∀ place : Fin directory.accounts.length,
        directory.account? (directory.accounts.get place).username =
          some (directory.accounts.get place).identity := by
      intro place
      rw [account_own userIds]
      intro earlier before same
      rw [distinct earlier place same] at before
      exact Nat.lt_irrefl _ before
    refine ⟨fun _ _ different _ => user_id_tag_apart userIds different, ?_, own, ?_⟩
    · intro left right different navigation shared
      exact different (distinct left right (username_tag_shared.mp shared))
    · intro left right different found
      have same := Option.some.inj ((own right).symm.trans found)
      exact different (distinct left right (Identity.mk.inj same).2.symm)

end Subjects

/-- What is checked of a directory tells its accounts apart by user id, and by login name as far as the
login names differ: two entries share the tag of a login name exactly if they have the same one, and
then only the first of them is found under it. -/
theorem accounts_apart_iff (directory : Directory) (valid : directory.fault? = none) :
    (∀ left right : Fin directory.accounts.length, left ≠ right → ∀ navigation,
      userIdTag (directory.accounts.get left).userId ∉
          subjectTags (directory.accounts.get right).identity navigation ∧
        (usernameTag (directory.accounts.get left).username ∈
            subjectTags (directory.accounts.get right).identity navigation ↔
          (directory.accounts.get left).username = (directory.accounts.get right).username)) ∧
    (∀ place : Fin directory.accounts.length,
      directory.account? (directory.accounts.get place).username =
          some (directory.accounts.get place).identity ↔
        ∀ earlier < place,
          (directory.accounts.get earlier).username ≠ (directory.accounts.get place).username) ∧
    (directory.SubjectsApart ↔ (directory.accounts.map Account.username).Nodup) := by
  have userIds := (fault_eq_none.mp valid).userIds
  refine ⟨?_, fun _ => account_own userIds, subjects_apart_iff userIds⟩
  intro left right different navigation
  exact ⟨user_id_tag_apart userIds different, username_tag_shared⟩

def namesakes : Directory := ⟨[], [⟨1, "alice", []⟩, ⟨2, "alice", []⟩]⟩

theorem namesakes_not_apart :
    namesakes.fault? = none ∧ ¬ namesakes.SubjectsApart ∧
      namesakes.account? "alice" = some ⟨1, "alice"⟩ ∧
        usernameTag "alice" ∈ subjectTags ⟨1, "alice"⟩ .nowhere ∧
          usernameTag "alice" ∈ subjectTags ⟨2, "alice"⟩ .nowhere := by
  have valid : namesakes.fault? = none := by decide
  refine ⟨valid, ?_, by decide, by decide, by decide⟩
  intro apart
  have second := apart.own ⟨1, by decide⟩
  exact absurd second (by decide)

theorem strangers_apart :
    (⟨[⟨7, "ops", none⟩], [⟨1, "alice", ["ops"]⟩, ⟨2, "Alice", []⟩]⟩ : Directory).fault? = none ∧
      (⟨[⟨7, "ops", none⟩], [⟨1, "alice", ["ops"]⟩, ⟨2, "Alice", []⟩]⟩ :
        Directory).SubjectsApart :=
  ⟨by decide, (accounts_apart_iff _ (by decide)).2.2.mpr (by decide)⟩

end Directory

end TagPolicy
