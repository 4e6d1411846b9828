import TagPolicy.Context.Sides
import TagPolicy.Toml.Fields
import TagPolicy.Toml.Reader

/-!
Directories: tags and accounts in a file. An account lists its tags by name, every name has to be
that of a listed tag, and no two accounts have the same user id.
-/

namespace TagPolicy

structure Account where
  userId : UInt32
  username : String
  /-- The names of the account's tags. -/
  tags : List String
deriving DecidableEq, Repr

structure Directory where
  tags : List Tag
  accounts : List Account
deriving DecidableEq, Repr

inductive DirectoryFault
  | unreadable
  | badTag (fault : TagFault)
  | sharedUserId (userId : UInt32) (first second : String)
  | unknownTag (username tag : String)
deriving DecidableEq, Repr

def DirectoryFault.message : DirectoryFault → String
  | .unreadable => "Failed to parse directory file"
  | .badTag fault => "Invalid tag: " ++ fault.message
  | .sharedUserId userId first second =>
      s!"User id {userId.toNat} assigned to both `{first}` and `{second}`"
  | .unknownTag username tag => s!"Account `{username}` references unknown tag `{tag}`"

namespace Directory

def empty : Directory := ⟨[], []⟩

instance : Inhabited Directory := ⟨empty⟩

def accountFault (names : List String) (seen : List Account) : List Account → Option DirectoryFault
  | [] => none
  | account :: rest =>
      match seen.find? fun other => other.userId = account.userId with
      | some other => some (.sharedUserId account.userId other.username account.username)
      | none =>
          match account.tags.find? fun tag => tag ∉ names with
          | some tag => some (.unknownTag account.username tag)
          | none => accountFault names (account :: seen) rest

/-- The first fault of a directory: of its tag names, and then of its accounts. -/
def fault? (directory : Directory) : Option DirectoryFault :=
  match directory.tags.findSome? Tag.nameFault with
  | some fault => some (.badTag fault)
  | none => accountFault (directory.tags.map Tag.name) [] directory.accounts

def tagOf (value : Toml) : Option Tag := do
  let id ← value.required Toml.asUInt32 "id" 0
  let name ← value.required Toml.asText "name" 1
  let parent ← value.optional (fun value => (Toml.asUInt32 value).map some) none "parent_id" 2
  some ⟨id, name, parent⟩

def accountOf (value : Toml) : Option Account := do
  let userId ← value.required Toml.asUInt32 "user_id" 0
  let username ← value.required Toml.asText "username" 1
  let tags ← value.optional (Toml.asList Toml.asText) [] "tags" 2
  some ⟨userId, username, tags⟩

/-- The directory of a document, not yet checked. -/
def ofToml (document : Toml) : Option Directory := do
  let tags ← document.optional (Toml.asList tagOf) [] "tags" 0
  let accounts ← document.optional (Toml.asList accountOf) [] "accounts" 1
  some ⟨tags, accounts⟩

def parse (text : String) : Except DirectoryFault Directory :=
  match (Toml.parse text).bind fun entries => ofToml (.table entries) with
  | none => .error .unreadable
  | some directory =>
      match directory.fault? with
      | some fault => .error fault
      | none => .ok directory

/-- The identity of the first account with a login name. -/
def account? (directory : Directory) (username : String) : Option Identity :=
  (directory.accounts.find? fun account => account.username = username).map fun account =>
    ⟨account.userId, account.username⟩

/-- The id of the first tag with a name. -/
def tagId? (directory : Directory) (name : String) : Option TagId :=
  (directory.tags.find? fun tag => tag.name = name).map Tag.id

/-- The ids of the tags of the first account with a user id. -/
def explicitTags (directory : Directory) : AccountLookup := fun identity =>
  match directory.accounts.find? fun account => account.userId = identity.userId with
  | none => .ok []
  | some account => .ok (account.tags.filterMap directory.tagId?)

end Directory

end TagPolicy
