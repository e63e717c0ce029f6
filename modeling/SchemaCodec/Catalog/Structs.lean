import SchemaCodec.Catalog.Queue
import SchemaCodec.Schema.Struct

/-!
# Catalog.Structs — the structs of the library, as they are declared

- `Declared`: the declarations of the fields, type by type.
- `structs`: all of them.

The rows stand in the order of the declarations. They repeat what the field tables of the types say,
so the two have to be kept alike: `structs_describe`.
-/

namespace SchemaCodec
namespace Catalog

namespace Declared

/-- The request to delete one account. -/
def deleteAccount : StructType where
  name := "message_definition.v1.DeleteAccountMessageFormat"
  attributes := [
    ⟨1, "auth_zero_id", .string, .plain⟩,
    ⟨2, "email", .string, .plain⟩,
    ⟨3, "user_id", .uint64, .plain⟩,
    ⟨4, "profile_type", .enum profileType, .plain⟩]

/-- The deletion request for the authentication service. -/
def headlessAuthentication : StructType where
  name := "message_definition.v1.HeadlessAuthenticationServiceDeleteAccountMessageFormat"
  attributes := [
    ⟨1, "authn_id", .uint64, .plain⟩,
    ⟨2, "email", .string, .plain⟩]

/-- The deletion request for the financial service. -/
def financialIntegration : StructType where
  name := "message_definition.v1.FinancialIntegrationServiceMessageFormat"
  attributes := [
    ⟨1, "user_id", .uint64, .plain⟩]

/-- The deletion request for the social service. -/
def socialService : StructType where
  name := "message_definition.v1.SocialServiceMessageFormat"
  attributes := [
    ⟨1, "user_id", .uint64, .plain⟩]

/-- A profile in the search index. -/
def searchRecord : StructType where
  name := "message_definition.v1.AlgoliaSearchRecordFormat"
  attributes := [
    ⟨1, "name", .string, .plain⟩,
    ⟨2, "user_id", .string, .plain⟩,
    ⟨3, "profile_id", .uint64, .plain⟩,
    ⟨4, "community_id", .uint64, .plain⟩,
    ⟨5, "tags", .string, .repeated⟩,
    ⟨6, "created_at", .string, .plain⟩,
    ⟨7, "profile_image_url", .string, .plain⟩]

/-- Options of a file. -/
def fileOptions : StructType where
  name := "gorm.GormFileOptions"
  attributes := []

/-- Options of a message. -/
def messageOptions : StructType where
  name := "gorm.GormMessageOptions"
  attributes := [
    ⟨1, "ormable", .bool, .plain⟩,
    ⟨2, "include", .message "gorm.ExtraField", .repeated⟩,
    ⟨3, "table", .string, .plain⟩,
    ⟨4, "multi_account", .bool, .plain⟩]

/-- A column without a counterpart in the message. -/
def extraField : StructType where
  name := "gorm.ExtraField"
  attributes := [
    ⟨1, "type", .string, .plain⟩,
    ⟨2, "name", .string, .plain⟩,
    ⟨3, "tag", .message "gorm.GormTag", .optional⟩,
    ⟨4, "package", .string, .plain⟩]

/-- Options of a field. -/
def fieldOptions : StructType where
  name := "gorm.GormFieldOptions"
  attributes := [
    ⟨1, "tag", .message "gorm.GormTag", .optional⟩,
    ⟨2, "drop", .bool, .plain⟩,
    ⟨3, "has_one", .message "gorm.HasOneOptions", .optional⟩,
    ⟨4, "belongs_to", .message "gorm.BelongsToOptions", .optional⟩,
    ⟨5, "has_many", .message "gorm.HasManyOptions", .optional⟩,
    ⟨6, "many_to_many", .message "gorm.ManyToManyOptions", .optional⟩,
    ⟨7, "reference_of", .string, .plain⟩]

/-- Options of a service. -/
def serviceOptions : StructType where
  name := "gorm.AutoServerOptions"
  attributes := [
    ⟨1, "autogen", .bool, .plain⟩,
    ⟨2, "txn_middleware", .bool, .plain⟩,
    ⟨3, "with_tracing", .bool, .plain⟩]

/-- Options of a method. -/
def methodOptions : StructType where
  name := "gorm.MethodOptions"
  attributes := [
    ⟨1, "object_type", .string, .plain⟩]

/-- Settings of a column. -/
def columnTag : StructType where
  name := "gorm.GormTag"
  attributes := [
    ⟨1, "column", .string, .plain⟩,
    ⟨2, "type", .string, .plain⟩,
    ⟨3, "size", .int32, .plain⟩,
    ⟨4, "precision", .int32, .plain⟩,
    ⟨5, "primary_key", .bool, .plain⟩,
    ⟨6, "unique", .bool, .plain⟩,
    ⟨7, "default", .string, .plain⟩,
    ⟨8, "not_null", .bool, .plain⟩,
    ⟨9, "auto_increment", .bool, .plain⟩,
    ⟨10, "index", .string, .plain⟩,
    ⟨11, "unique_index", .string, .plain⟩,
    ⟨12, "embedded", .bool, .plain⟩,
    ⟨13, "embedded_prefix", .string, .plain⟩,
    ⟨14, "ignore", .bool, .plain⟩,
    ⟨15, "foreignkey", .string, .plain⟩,
    ⟨16, "association_foreignkey", .string, .plain⟩,
    ⟨17, "many_to_many", .string, .plain⟩,
    ⟨18, "jointable_foreignkey", .string, .plain⟩,
    ⟨19, "association_jointable_foreignkey", .string, .plain⟩,
    ⟨20, "disable_association_autoupdate", .bool, .plain⟩,
    ⟨21, "disable_association_autocreate", .bool, .plain⟩,
    ⟨22, "association_save_reference", .bool, .plain⟩,
    ⟨23, "preload", .bool, .plain⟩,
    ⟨24, "serializer", .string, .plain⟩]

/-- A one-to-one relation owned by the message. -/
def hasOne : StructType where
  name := "gorm.HasOneOptions"
  attributes := [
    ⟨1, "foreignkey", .string, .plain⟩,
    ⟨2, "foreignkey_tag", .message "gorm.GormTag", .optional⟩,
    ⟨3, "association_foreignkey", .string, .plain⟩,
    ⟨4, "disable_association_autoupdate", .bool, .plain⟩,
    ⟨5, "disable_association_autocreate", .bool, .plain⟩,
    ⟨6, "association_save_reference", .bool, .plain⟩,
    ⟨7, "preload", .bool, .plain⟩,
    ⟨8, "replace", .bool, .plain⟩,
    ⟨9, "append", .bool, .plain⟩,
    ⟨10, "clear", .bool, .plain⟩]

/-- A relation whose foreign key is a column of the message. -/
def belongsTo : StructType where
  name := "gorm.BelongsToOptions"
  attributes := [
    ⟨1, "foreignkey", .string, .plain⟩,
    ⟨2, "foreignkey_tag", .message "gorm.GormTag", .optional⟩,
    ⟨3, "association_foreignkey", .string, .plain⟩,
    ⟨4, "disable_association_autoupdate", .bool, .plain⟩,
    ⟨5, "disable_association_autocreate", .bool, .plain⟩,
    ⟨6, "association_save_reference", .bool, .plain⟩,
    ⟨7, "preload", .bool, .plain⟩]

/-- A one-to-many relation. -/
def hasMany : StructType where
  name := "gorm.HasManyOptions"
  attributes := [
    ⟨1, "foreignkey", .string, .plain⟩,
    ⟨2, "foreignkey_tag", .message "gorm.GormTag", .optional⟩,
    ⟨3, "association_foreignkey", .string, .plain⟩,
    ⟨4, "position_field", .string, .plain⟩,
    ⟨5, "position_field_tag", .message "gorm.GormTag", .optional⟩,
    ⟨6, "disable_association_autoupdate", .bool, .plain⟩,
    ⟨7, "disable_association_autocreate", .bool, .plain⟩,
    ⟨8, "association_save_reference", .bool, .plain⟩,
    ⟨9, "preload", .bool, .plain⟩,
    ⟨10, "replace", .bool, .plain⟩,
    ⟨11, "append", .bool, .plain⟩,
    ⟨12, "clear", .bool, .plain⟩]

/-- A many-to-many relation through a join table. -/
def manyToMany : StructType where
  name := "gorm.ManyToManyOptions"
  attributes := [
    ⟨1, "jointable", .string, .plain⟩,
    ⟨2, "foreignkey", .string, .plain⟩,
    ⟨3, "jointable_foreignkey", .string, .plain⟩,
    ⟨4, "association_foreignkey", .string, .plain⟩,
    ⟨5, "association_jointable_foreignkey", .string, .plain⟩,
    ⟨6, "disable_association_autoupdate", .bool, .plain⟩,
    ⟨7, "disable_association_autocreate", .bool, .plain⟩,
    ⟨8, "association_save_reference", .bool, .plain⟩,
    ⟨9, "preload", .bool, .plain⟩,
    ⟨10, "replace", .bool, .plain⟩,
    ⟨11, "append", .bool, .plain⟩,
    ⟨13, "clear", .bool, .plain⟩]

end Declared

/-- The structs of the library. -/
def structs : Structs where
  types := [
    Declared.deleteAccount,
    Declared.headlessAuthentication,
    Declared.financialIntegration,
    Declared.socialService,
    Declared.searchRecord,
    Declared.fileOptions,
    Declared.messageOptions,
    Declared.extraField,
    Declared.fieldOptions,
    Declared.serviceOptions,
    Declared.methodOptions,
    Declared.columnTag,
    Declared.hasOne,
    Declared.belongsTo,
    Declared.hasMany,
    Declared.manyToMany]

end Catalog
end SchemaCodec
