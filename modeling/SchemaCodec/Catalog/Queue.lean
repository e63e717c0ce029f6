import SchemaCodec.Catalog.File

/-!
# Catalog.Queue — the messages of the deletion queue

- `profileType`: the kind of profile attached to an account.
- `deleteAccount` and the deletion requests of single services.
- `searchRecord`: a profile in the search index.
- `queueFile`: the schema file of the package.
-/

namespace SchemaCodec
namespace Catalog

/-- The kind of profile attached to an account. -/
def profileType : EnumType where
  name := "message_definition.v1.DeleteAccountMessageFormat.ProfileType"
  values := [
    ⟨"PROFILE_TYPE_UNSPECIFIED", "Unspecified", 0⟩,
    ⟨"PROFILE_TYPE_USER", "User", 1⟩,
    ⟨"PROFILE_TYPE_BUSINESS", "Business", 2⟩]

/-- The request to delete one account, sent to every service. -/
def deleteAccount : MessageType where
  name := "message_definition.v1.DeleteAccountMessageFormat"
  fields := [
    ⟨1, "auth_zero_id", "authZeroId", .string, false⟩,
    ⟨2, "email", "email", .string, false⟩,
    ⟨3, "user_id", "userId", .uint64, false⟩,
    ⟨4, "profile_type", "profileType", .enum profileType, false⟩]

/-- The deletion request for the authentication service. -/
def headlessAuthentication : MessageType where
  name := "message_definition.v1.HeadlessAuthenticationServiceDeleteAccountMessageFormat"
  fields := [
    ⟨1, "authn_id", "authnId", .uint64, false⟩,
    ⟨2, "email", "email", .string, false⟩]

/-- The deletion request for the financial service. -/
def financialIntegration : MessageType where
  name := "message_definition.v1.FinancialIntegrationServiceMessageFormat"
  fields := [
    ⟨1, "user_id", "userId", .uint64, false⟩]

/-- The deletion request for the social service. -/
def socialService : MessageType where
  name := "message_definition.v1.SocialServiceMessageFormat"
  fields := [
    ⟨1, "user_id", "userId", .uint64, false⟩]

/-- A profile as it stands in the search index. The user id is a text here. -/
def searchRecord : MessageType where
  name := "message_definition.v1.AlgoliaSearchRecordFormat"
  fields := [
    ⟨1, "name", "name", .string, false⟩,
    ⟨2, "user_id", "userId", .string, false⟩,
    ⟨3, "profile_id", "profileId", .uint64, false⟩,
    ⟨4, "community_id", "communityId", .uint64, false⟩,
    ⟨5, "tags", "tags", .string, true⟩,
    ⟨6, "created_at", "createdAt", .string, false⟩,
    ⟨7, "profile_image_url", "profileImageUrl", .string, false⟩]

/-- The schema file of the queue messages. The profile types are declared inside the deletion
request. -/
def queueFile : SchemaFile where
  path := "message_definition/v1/message.proto"
  package := "message_definition.v1"
  types := [
    ⟨deleteAccount, [profileType]⟩,
    ⟨headlessAuthentication, []⟩,
    ⟨financialIntegration, []⟩,
    ⟨socialService, []⟩,
    ⟨searchRecord, []⟩]

end Catalog
end SchemaCodec
