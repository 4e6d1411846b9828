import TagPolicy.Context.Automatic

/-!
Which automatic tags can be mistaken for which. The tags of subjects and operations are told apart by
what stands before their first underscore. The tags of an entity are put together from the name of
its realm, so for a few realms they are tags of subjects or operations.
-/

namespace TagPolicy.Automatic

open Text (normalize isPlain)

theorem user_id_tag_eq (userId : UInt32) : userIdTag userId = "$userid_" ++ userId.toNat.repr := rfl

theorem entity_tag_eq (realm : String) (id : UInt64) :
    entityTag realm id = "$" ++ normalize realm ++ ("id_" ++ id.toNat.repr) := rfl

section Kinds

/-- What a tag begins with, up to its first underscore. -/
def kind (tag : String) : String := String.ofList (tag.toList.takeWhile fun char => char ≠ '_')

theorem kind_user_id_tag (userId : UInt32) : kind (userIdTag userId) = "$userid" := by
  simp [kind, user_id_tag_eq]

theorem kind_username_tag (username : String) : kind (usernameTag username) = "$username" := by
  simp [kind, usernameTag]

theorem kind_page (text : String) : kind ("$page_" ++ text) = "$page" := by
  simp [kind]

theorem kind_tab (text : String) : kind ("$tab_" ++ text) = "$tab" := by
  simp [kind]

theorem kind_op (text : String) : kind ("$op_" ++ text) = "$op" := by
  simp [kind]

theorem kind_any_entity_tag (realm : String) : kind (anyEntityTag realm) = "$any" := by
  simp [kind, anyEntityTag]

end Kinds

section Members

variable {tag : String}

theorem mem_tag_if_named {form : String → String} {name : Option String} :
    tag ∈ tagIfNamed form name ↔ ∃ text, name = some text ∧ text ≠ "" ∧ tag = form text := by
  cases name with
  | none => simp [tagIfNamed]
  | some text =>
      by_cases empty : text = ""
      · simp [tagIfNamed, empty]
      · simp [tagIfNamed, empty]

theorem mem_subject_tags {identity : Identity} {navigation : Navigation} :
    tag ∈ subjectTags identity navigation ↔
      tag = anyAuthenticated ∨ tag = userIdTag identity.userId ∨
        tag = usernameTag identity.username ∨
          (∃ page, navigation.page = some page ∧ page ≠ "" ∧ tag = pageTag page) ∨
            ∃ tab, navigation.tab = some tab ∧ tab ≠ "" ∧ tag = tabTag tab := by
  rw [subjectTags, OrderedSet.mem_ofList, List.mem_append, List.mem_append, mem_tag_if_named,
    mem_tag_if_named]
  simp [or_assoc]

theorem mem_entity_tags {realm : String} {id : Option UInt64} :
    tag ∈ entityTags realm id ↔
      realm ≠ "" ∧ ((∃ number, id = some number ∧ tag = entityTag realm number) ∨
        tag = anyEntityTag realm) := by
  rw [entityTags]
  by_cases empty : realm = ""
  · simp [empty, OrderedSet.mem_def, OrderedSet.empty]
  · rw [if_neg empty, OrderedSet.mem_ofList]
    cases id <;> simp [empty]

theorem mem_action_tags {action : Action} :
    tag ∈ actionTags action ↔
      action.name ≠ "" ∧ (tag = anyAction ∨ tag = actionTag action.name) := by
  rw [actionTags]
  by_cases empty : action.name = ""
  · simp [empty]
  · simp [empty]

end Members

section Characters

theorem toList_user_id_tag (userId : UInt32) :
    (userIdTag userId).toList =
      ['$', 'u', 's', 'e', 'r', 'i', 'd'] ++ '_' :: Nat.toDigits 10 userId.toNat := by
  simp [user_id_tag_eq]

theorem toList_entity_tag (realm : String) (id : UInt64) :
    (entityTag realm id).toList =
      '$' :: (normalize realm).toList ++ ['i', 'd'] ++ '_' :: Nat.toDigits 10 id.toNat := by
  simp [entity_tag_eq]

theorem toDigits_injective {left right : Nat} (same : Nat.toDigits 10 left = Nat.toDigits 10 right) :
    left = right := by
  have back := congrArg (fun digits => Nat.ofDigitChars 10 digits 0) same
  simpa using back

theorem eq_of_last_underscore {left right first second : List Char} (noFirst : '_' ∉ first)
    (noSecond : '_' ∉ second) (same : left ++ '_' :: first = right ++ '_' :: second) :
    left = right ∧ first = second := by
  rcases List.append_eq_append_iff.mp same with ⟨more, rfl, split⟩ | ⟨more, rfl, split⟩
  · cases more with
    | nil =>
        cases split
        exact ⟨(List.append_nil _).symm, rfl⟩
    | cons char more =>
        cases split
        exact absurd (List.mem_append_right more List.mem_cons_self) noFirst
  · cases more with
    | nil =>
        cases split
        exact ⟨List.append_nil _, rfl⟩
    | cons char more =>
        cases split
        exact absurd (List.mem_append_right more List.mem_cons_self) noSecond

theorem begins_of_begins_append {start front rest : List Char} {char : Char}
    (absent : char ∉ start) (begins : start <+: front ++ char :: rest) : start <+: front := by
  have longer : front ++ [char] <+: front ++ char :: rest := ⟨rest, by simp⟩
  rcases List.prefix_or_prefix_of_prefix begins longer with within | beyond
  · rcases List.prefix_concat_iff.mp within with rfl | within
    · exact absurd (List.mem_append_right front List.mem_cons_self) absent
    · exact within
  · exact absurd (beyond.subset (List.mem_append_right front List.mem_cons_self)) absent

end Characters

section ToldApart

variable {tag : String} {identity : Identity} {navigation : Navigation} {action : Action}

theorem kind_of_mem_subject_tags (inside : tag ∈ subjectTags identity navigation) :
    (kind tag = "$any" ∧ tag = anyAuthenticated) ∨
      (kind tag = "$userid" ∧ tag = userIdTag identity.userId) ∨
        (kind tag = "$username" ∧ tag = usernameTag identity.username) ∨
          kind tag = "$page" ∨ kind tag = "$tab" := by
  rcases mem_subject_tags.mp inside with
    rfl | rfl | rfl | ⟨page, -, -, rfl⟩ | ⟨tab, -, -, rfl⟩
  · exact Or.inl ⟨by decide, rfl⟩
  · exact Or.inr (Or.inl ⟨kind_user_id_tag _, rfl⟩)
  · exact Or.inr (Or.inr (Or.inl ⟨kind_username_tag _, rfl⟩))
  · exact Or.inr (Or.inr (Or.inr (Or.inl (kind_page _))))
  · exact Or.inr (Or.inr (Or.inr (Or.inr (kind_tab _))))

theorem kind_of_mem_action_tags (inside : tag ∈ actionTags action) :
    action.name ≠ "" ∧ ((kind tag = "$any" ∧ tag = anyAction) ∨
      (kind tag = "$op" ∧ tag = actionTag action.name)) := by
  obtain ⟨named, rfl | rfl⟩ := mem_action_tags.mp inside
  · exact ⟨named, Or.inl ⟨by decide, rfl⟩⟩
  · exact ⟨named, Or.inr ⟨kind_op _, rfl⟩⟩

theorem not_mem_action_tags_of_kind (notAny : kind tag ≠ "$any") (notOp : kind tag ≠ "$op") :
    tag ∉ actionTags action := by
  intro inside
  obtain ⟨-, ⟨any, -⟩ | ⟨op, -⟩⟩ := kind_of_mem_action_tags inside
  · exact notAny any
  · exact notOp op

theorem user_id_tag_not_mem_action_tags {userId : UInt32} : userIdTag userId ∉ actionTags action := by
  apply not_mem_action_tags_of_kind
  · rw [kind_user_id_tag]
    decide
  · rw [kind_user_id_tag]
    decide

theorem username_tag_not_mem_action_tags {username : String} :
    usernameTag username ∉ actionTags action := by
  apply not_mem_action_tags_of_kind
  · rw [kind_username_tag]
    decide
  · rw [kind_username_tag]
    decide

theorem any_authenticated_not_mem_action_tags : anyAuthenticated ∉ actionTags action := by
  intro inside
  obtain ⟨-, ⟨-, same⟩ | ⟨op, -⟩⟩ := kind_of_mem_action_tags inside
  · exact absurd same (by decide)
  · exact absurd op (by decide)

theorem any_action_not_mem_subject_tags : anyAction ∉ subjectTags identity navigation := by
  intro inside
  rcases kind_of_mem_subject_tags inside with
    ⟨-, same⟩ | ⟨kind, -⟩ | ⟨kind, -⟩ | kind | kind
  · exact absurd same (by decide)
  all_goals
    exact absurd kind (by decide)

theorem eq_of_user_id_tag_mem {userId : UInt32}
    (inside : userIdTag userId ∈ subjectTags identity navigation) : identity.userId = userId := by
  rcases kind_of_mem_subject_tags inside with
    ⟨kind, -⟩ | ⟨-, same⟩ | ⟨kind, -⟩ | kind | kind
  case inr.inl =>
    have chars := congrArg String.toList same
    rw [toList_user_id_tag, toList_user_id_tag] at chars
    obtain ⟨-, digits⟩ := eq_of_last_underscore Nat.underscore_not_in_toDigits
      Nat.underscore_not_in_toDigits chars
    exact UInt32.toNat_inj.mp (toDigits_injective digits).symm
  all_goals
    rw [kind_user_id_tag] at kind
    exact absurd kind (by decide)

theorem eq_of_username_tag_mem {username : String}
    (inside : usernameTag username ∈ subjectTags identity navigation) :
    identity.username = username := by
  rcases kind_of_mem_subject_tags inside with
    ⟨kind, -⟩ | ⟨kind, -⟩ | ⟨-, same⟩ | kind | kind
  case inr.inr.inl => exact ((String.append_right_inj _).mp same).symm
  all_goals
    rw [kind_username_tag] at kind
    exact absurd kind (by decide)

theorem op_not_mem_subject_tags {text : String} :
    "$op_" ++ text ∉ subjectTags identity navigation := by
  intro inside
  rcases kind_of_mem_subject_tags inside with
    ⟨kind, -⟩ | ⟨kind, -⟩ | ⟨kind, -⟩ | kind | kind
  all_goals
    rw [kind_op] at kind
    exact absurd kind (by decide)

theorem eq_of_op_mem {text : String} (inside : "$op_" ++ text ∈ actionTags action) :
    action.name ≠ "" ∧ text = normalize action.name := by
  obtain ⟨named, ⟨kind, -⟩ | ⟨-, same⟩⟩ := kind_of_mem_action_tags inside
  · rw [kind_op] at kind
    exact absurd kind (by decide)
  · exact ⟨named, (String.append_right_inj _).mp same⟩

end ToldApart

/-- What the tags that are put together from names begin with, behind their mark. -/
def nameStarts : List String := ["username_", "page_", "tab_", "op_"]

section Entities

variable {realm : String}

theorem entity_tag_ne_any {id : UInt64} {text : String} (absent : '_' ∉ text.toList) :
    entityTag realm id ≠ "$any_" ++ text := by
  intro same
  have chars := congrArg String.toList same
  have split : ("$any_" ++ text).toList = ['$', 'a', 'n', 'y'] ++ '_' :: text.toList := by simp
  rw [toList_entity_tag, split] at chars
  obtain ⟨front, -⟩ := eq_of_last_underscore Nat.underscore_not_in_toDigits absent chars
  have last := congrArg List.reverse front
  simp at last

theorem entity_tag_eq_user_id_tag {id : UInt64} {userId : UInt32} :
    entityTag realm id = userIdTag userId ↔
      normalize realm = "user" ∧ id.toNat = userId.toNat := by
  constructor
  · intro same
    have chars := congrArg String.toList same
    rw [toList_entity_tag, toList_user_id_tag] at chars
    obtain ⟨front, digits⟩ := eq_of_last_underscore Nat.underscore_not_in_toDigits
      Nat.underscore_not_in_toDigits chars
    refine ⟨?_, toDigits_injective digits⟩
    have whole : ('$' :: (normalize realm).toList) ++ ['i', 'd'] =
        ['$', 'u', 's', 'e', 'r'] ++ ['i', 'd'] := front
    have name := List.append_cancel_right whole
    exact String.toList_injective (List.cons.inj name).2
  · rintro ⟨name, number⟩
    rw [entity_tag_eq, user_id_tag_eq, name, number, ← String.append_assoc]
    rfl

/-- A start without the letter that follows the realm is a start of the realm. -/
theorem entity_tag_eq_append {id : UInt64} {start text : String} (absent : 'i' ∉ start.toList) :
    entityTag realm id = "$" ++ start ++ text ↔
      ∃ rest, normalize realm = start ++ rest ∧ text = rest ++ ("id_" ++ id.toNat.repr) := by
  constructor
  · intro same
    have chars := congrArg String.toList same
    rw [toList_entity_tag, String.toList_append, String.toList_append] at chars
    have tail : (normalize realm).toList ++ 'i' :: ('d' :: '_' :: Nat.toDigits 10 id.toNat) =
        start.toList ++ text.toList := by
      simpa using chars
    have begins : start.toList <+: (normalize realm).toList ++
        'i' :: ('d' :: '_' :: Nat.toDigits 10 id.toNat) := ⟨text.toList, tail.symm⟩
    obtain ⟨rest, whole⟩ := begins_of_begins_append absent begins
    have name : normalize realm = start ++ String.ofList rest := by
      apply String.toList_injective
      rw [String.toList_append, String.toList_ofList, whole]
    refine ⟨String.ofList rest, name, ?_⟩
    simp only [entity_tag_eq, name, String.append_assoc, String.append_right_inj] at same
    exact same.symm
  · rintro ⟨rest, name, rfl⟩
    rw [entity_tag_eq, name]
    simp only [String.append_assoc]

/-- What follows a start in the tag of an entity is a plain identifier. -/
theorem normalize_rest {id : UInt64} {start rest : String} (name : normalize realm = start ++ rest) :
    normalize (rest ++ ("id_" ++ id.toNat.repr)) = rest ++ ("id_" ++ id.toNat.repr) := by
  apply Text.normalize_eq_self
  intro char inside
  rw [String.toList_append, String.toList_append, Nat.toList_repr] at inside
  rcases List.mem_append.mp inside with inside | inside
  · apply Text.is_plain_of_mem_normalize
    rw [name, String.toList_append]
    exact List.mem_append_right _ inside
  · rcases List.mem_append.mp inside with inside | inside
    · have letters : char = 'i' ∨ char = 'd' ∨ char = '_' := by simpa using inside
      rcases letters with rfl | rfl | rfl <;> rfl
    · have digit := Nat.isDigit_of_mem_toDigits (by decide) (by decide) inside
      simp only [Char.isDigit, Bool.and_eq_true, decide_eq_true_eq] at digit
      have range : '0' ≤ char ∧ char ≤ '9' := digit
      simp [isPlain, range]

theorem realm_ne_empty {name : String} (named : normalize realm = name) (present : name ≠ "") :
    realm ≠ "" := by
  rintro rfl
  exact present named.symm

variable {id : Option UInt64}

theorem any_mem_entity_tags {text : String} (absent : '_' ∉ text.toList) (present : text ≠ "") :
    "$any_" ++ text ∈ entityTags realm id ↔ normalize realm = text := by
  rw [mem_entity_tags]
  constructor
  · rintro ⟨-, ⟨number, -, same⟩ | same⟩
    · exact absurd same.symm (entity_tag_ne_any absent)
    · exact ((String.append_right_inj _).mp same).symm
  · intro name
    exact ⟨realm_ne_empty name present, Or.inr (by rw [anyEntityTag, name])⟩

theorem user_id_tag_mem_entity_tags {userId : UInt32} :
    userIdTag userId ∈ entityTags realm id ↔
      ∃ number, id = some number ∧ normalize realm = "user" ∧ number.toNat = userId.toNat := by
  rw [mem_entity_tags]
  constructor
  · rintro ⟨-, ⟨number, rfl, same⟩ | same⟩
    · exact ⟨number, rfl, entity_tag_eq_user_id_tag.mp same.symm⟩
    · have kinds := congrArg kind same
      rw [kind_user_id_tag, kind_any_entity_tag] at kinds
      exact absurd kinds (by decide)
  · rintro ⟨number, rfl, user⟩
    exact ⟨realm_ne_empty user.1 (by decide),
      Or.inl ⟨number, rfl, (entity_tag_eq_user_id_tag.mpr user).symm⟩⟩

theorem start_mem_entity_tags {tag start text : String} (reserved : start ∈ nameStarts)
    (form : tag = "$" ++ start ++ text) :
    tag ∈ entityTags realm id ↔
      ∃ number rest, id = some number ∧ normalize realm = start ++ rest ∧
        text = rest ++ ("id_" ++ number.toNat.repr) := by
  obtain ⟨absent, present, notAny⟩ : 'i' ∉ start.toList ∧ start ≠ "" ∧ kind tag ≠ "$any" := by
    rw [form]
    simp only [nameStarts, List.mem_cons, List.not_mem_nil, or_false] at reserved
    rcases reserved with rfl | rfl | rfl | rfl
    all_goals exact ⟨by decide, by decide, by simp [kind]⟩
  rw [mem_entity_tags]
  constructor
  · rintro ⟨-, ⟨number, rfl, same⟩ | same⟩
    · obtain ⟨rest, name, whole⟩ := (entity_tag_eq_append absent).mp (same.symm.trans form)
      exact ⟨number, rest, rfl, name, whole⟩
    · rw [same, kind_any_entity_tag] at notAny
      exact absurd rfl notAny
  · rintro ⟨number, rest, rfl, name, whole⟩
    have begun : start ++ rest ≠ "" := by
      intro empty
      exact present (String.append_eq_empty_iff.mp empty).1
    have same := (entity_tag_eq_append absent).mpr ⟨rest, name, whole⟩
    exact ⟨realm_ne_empty name begun, Or.inl ⟨number, rfl, form.trans same.symm⟩⟩

theorem username_tag_mem_entity_tags {username : String} :
    usernameTag username ∈ entityTags realm id ↔
      ∃ number rest, id = some number ∧ normalize realm = "username_" ++ rest ∧
        username = rest ++ ("id_" ++ number.toNat.repr) := by
  have start : "$username_" = "$" ++ "username_" := by decide
  exact start_mem_entity_tags (by decide) (by rw [usernameTag, start])

theorem page_mem_entity_tags {text : String} :
    "$page_" ++ text ∈ entityTags realm id ↔
      ∃ number rest, id = some number ∧ normalize realm = "page_" ++ rest ∧
        text = rest ++ ("id_" ++ number.toNat.repr) := by
  have start : "$page_" = "$" ++ "page_" := by decide
  exact start_mem_entity_tags (by decide) (by rw [start])

theorem tab_mem_entity_tags {text : String} :
    "$tab_" ++ text ∈ entityTags realm id ↔
      ∃ number rest, id = some number ∧ normalize realm = "tab_" ++ rest ∧
        text = rest ++ ("id_" ++ number.toNat.repr) := by
  have start : "$tab_" = "$" ++ "tab_" := by decide
  exact start_mem_entity_tags (by decide) (by rw [start])

theorem op_mem_entity_tags {text : String} :
    "$op_" ++ text ∈ entityTags realm id ↔
      ∃ number rest, id = some number ∧ normalize realm = "op_" ++ rest ∧
        text = rest ++ ("id_" ++ number.toNat.repr) := by
  have start : "$op_" = "$" ++ "op_" := by decide
  exact start_mem_entity_tags (by decide) (by rw [start])

end Entities

/-- Whether the realm of an entity is none of those whose tags are tags of subjects or operations,
where the tags that are put together from names have certain starts. -/
def Apart (starts : List String) (realm : String) (id : Option UInt64) : Prop :=
  normalize realm ≠ "auth" ∧ normalize realm ≠ "op" ∧
    ∀ number, id = some number →
      ¬ (normalize realm = "user" ∧ number.toNat < UInt32.size) ∧
        ∀ start ∈ starts, ∀ rest, normalize realm ≠ start ++ rest

def actorStarts : List String := ["username_", "op_"]

section Disjoint

variable {realm : String} {id : Option UInt64}

theorem not_mem_subject_tags_of_apart (apart : Apart nameStarts realm id) {tag : String}
    (inside : tag ∈ entityTags realm id) (identity : Identity) (navigation : Navigation) :
    tag ∉ subjectTags identity navigation := by
  obtain ⟨notAuth, -, numbered⟩ := apart
  intro shared
  rcases mem_subject_tags.mp shared with
    rfl | rfl | rfl | ⟨page, -, -, rfl⟩ | ⟨tab, -, -, rfl⟩
  · exact notAuth ((any_mem_entity_tags (by decide) (by decide)).mp inside)
  · obtain ⟨number, given, user, same⟩ := user_id_tag_mem_entity_tags.mp inside
    apply (numbered number given).1
    rw [same]
    exact ⟨user, identity.userId.toNat_lt⟩
  · obtain ⟨number, rest, given, name, -⟩ := username_tag_mem_entity_tags.mp inside
    exact (numbered number given).2 "username_" (by decide) rest name
  · obtain ⟨number, rest, given, name, -⟩ := page_mem_entity_tags.mp inside
    exact (numbered number given).2 "page_" (by decide) rest name
  · obtain ⟨number, rest, given, name, -⟩ := tab_mem_entity_tags.mp inside
    exact (numbered number given).2 "tab_" (by decide) rest name

theorem not_mem_action_tags_of_apart (apart : Apart nameStarts realm id) {tag : String}
    (inside : tag ∈ entityTags realm id) (action : Action) : tag ∉ actionTags action := by
  obtain ⟨-, notOp, numbered⟩ := apart
  intro shared
  obtain ⟨-, rfl | rfl⟩ := mem_action_tags.mp shared
  · exact notOp ((any_mem_entity_tags (by decide) (by decide)).mp inside)
  · obtain ⟨number, rest, given, name, -⟩ := op_mem_entity_tags.mp inside
    exact (numbered number given).2 "op_" (by decide) rest name

/-- A name that begins with one of the starts makes the tag of an entity that of a subject or an
operation. -/
theorem shared_of_start {number : UInt64} {start rest : String} (given : id = some number)
    (reserved : start ∈ nameStarts) (name : normalize realm = start ++ rest) :
    ∃ tag ∈ entityTags realm id,
      (∃ identity navigation, tag ∈ subjectTags identity navigation) ∨
        ∃ action, tag ∈ actionTags action := by
  have plain : normalize (rest ++ ("id_" ++ number.toNat.repr)) =
      rest ++ ("id_" ++ number.toNat.repr) := normalize_rest name
  have named : rest ++ ("id_" ++ number.toNat.repr) ≠ "" := by
    intro empty
    have chars := congrArg String.toList empty
    simp at chars
  rw [nameStarts] at reserved
  simp only [List.mem_cons, List.not_mem_nil, or_false] at reserved
  rcases reserved with rfl | rfl | rfl | rfl
  · have inside := username_tag_mem_entity_tags.mpr ⟨number, rest, given, name, rfl⟩
    exact ⟨_, inside, Or.inl ⟨⟨0, _⟩, .nowhere,
      mem_subject_tags.mpr (Or.inr (Or.inr (Or.inl rfl)))⟩⟩
  · have inside := page_mem_entity_tags.mpr ⟨number, rest, given, name, rfl⟩
    rw [← plain] at inside
    exact ⟨_, inside, Or.inl ⟨⟨0, ""⟩, ⟨some _, none⟩,
      mem_subject_tags.mpr (Or.inr (Or.inr (Or.inr (Or.inl ⟨_, rfl, named, rfl⟩))))⟩⟩
  · have inside := tab_mem_entity_tags.mpr ⟨number, rest, given, name, rfl⟩
    rw [← plain] at inside
    exact ⟨_, inside, Or.inl ⟨⟨0, ""⟩, ⟨none, some _⟩,
      mem_subject_tags.mpr (Or.inr (Or.inr (Or.inr (Or.inr ⟨_, rfl, named, rfl⟩))))⟩⟩
  · have inside := op_mem_entity_tags.mpr ⟨number, rest, given, name, rfl⟩
    rw [← plain] at inside
    exact ⟨_, inside, Or.inr ⟨⟨_⟩, mem_action_tags.mpr ⟨named, Or.inr rfl⟩⟩⟩

theorem apart_of_disjoint (disjoint : ∀ tag ∈ entityTags realm id,
    (∀ identity navigation, tag ∉ subjectTags identity navigation) ∧
      ∀ action, tag ∉ actionTags action) : Apart nameStarts realm id := by
  refine ⟨?_, ?_, ?_⟩
  · intro name
    have inside : anyAuthenticated ∈ entityTags realm id :=
      (any_mem_entity_tags (by decide) (by decide)).mpr name
    exact (disjoint _ inside).1 ⟨0, ""⟩ .nowhere (mem_subject_tags.mpr (Or.inl rfl))
  · intro name
    have inside : anyAction ∈ entityTags realm id :=
      (any_mem_entity_tags (by decide) (by decide)).mpr name
    have named : (Action.mk "op").name ≠ "" := by decide
    exact (disjoint _ inside).2 ⟨"op"⟩ (mem_action_tags.mpr ⟨named, Or.inl rfl⟩)
  · intro number given
    constructor
    · rintro ⟨name, small⟩
      have inside : userIdTag (UInt32.ofNat number.toNat) ∈ entityTags realm id :=
        user_id_tag_mem_entity_tags.mpr
          ⟨number, given, name, (UInt32.toNat_ofNat_of_lt' small).symm⟩
      exact (disjoint _ inside).1 ⟨UInt32.ofNat number.toNat, ""⟩ .nowhere
        (mem_subject_tags.mpr (Or.inr (Or.inl rfl)))
    · intro start reserved rest name
      obtain ⟨tag, inside, ⟨identity, navigation, shared⟩ | ⟨action, shared⟩⟩ :=
        shared_of_start given reserved name
      · exact (disjoint tag inside).1 identity navigation shared
      · exact (disjoint tag inside).2 action shared

end Disjoint

end TagPolicy.Automatic
