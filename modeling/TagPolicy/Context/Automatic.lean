import TagPolicy.Context.Request
import TagPolicy.Text.Letter

/-!
Automatic tags. They follow from what is known of a request anyway, and all their names begin with a
dollar sign, which no stored name does. The login name goes into its tag as it is, so two accounts
never share that tag; names of pages, tabs, realms and operations are reduced to plain identifiers.
-/

namespace TagPolicy.Automatic

def anyAuthenticated : String := "$any_auth"

def anyAction : String := "$any_op"

def userIdTag (userId : UInt32) : String := s!"$userid_{userId.toNat}"

def usernameTag (username : String) : String := "$username_" ++ username

def pageTag (page : String) : String := "$page_" ++ Text.normalize page

def tabTag (tab : String) : String := "$tab_" ++ Text.normalize tab

def entityTag (realm : String) (id : UInt64) : String :=
  "$" ++ Text.normalize realm ++ s!"id_{id.toNat}"

def anyEntityTag (realm : String) : String := "$any_" ++ Text.normalize realm

def actionTag (name : String) : String := "$op_" ++ Text.normalize name

/-- The tag that a name gives, where an empty name is no name. -/
def tagIfNamed (tag : String → String) : Option String → List String
  | some name => if name = "" then [] else [tag name]
  | none => []

def subjectTags (identity : Identity) (navigation : Navigation) : OrderedSet String :=
  .ofList ([anyAuthenticated, userIdTag identity.userId, usernameTag identity.username] ++
    tagIfNamed pageTag navigation.page ++ tagIfNamed tabTag navigation.tab)

/-- The automatic tags of an entity; an empty realm has none. -/
def entityTags (realm : String) (id : Option UInt64) : OrderedSet String :=
  if realm = "" then .empty
  else .ofList ((id.map (entityTag realm)).toList ++ [anyEntityTag realm])

/-- The automatic tags of an operation; mere access has none. -/
def actionTags (action : Action) : List String :=
  if action.name = "" then [] else [anyAction, actionTag action.name]

end TagPolicy.Automatic
