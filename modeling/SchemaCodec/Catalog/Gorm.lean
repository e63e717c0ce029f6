import SchemaCodec.Catalog.File

/-!
# Catalog.Gorm — the options of object-relational mapping

- `fileOptions`, `messageOptions`, `fieldOptions`, `serviceOptions`, `methodOptions`: what can be
  attached to the elements of a schema.
- `columnTag`, `extraField`: columns.
- `hasOne`, `belongsTo`, `hasMany`, `manyToMany`: relations.
- `gormFile`: the schema file of the package.
-/

namespace SchemaCodec
namespace Catalog

/-- Options of a file. There are none to set. -/
def fileOptions : MessageType where
  name := "gorm.GormFileOptions"
  fields := []

/-- Options of a message. -/
def messageOptions : MessageType where
  name := "gorm.GormMessageOptions"
  fields := [
    ⟨1, "ormable", "ormable", .bool, false⟩,
    ⟨2, "include", "include", .message "gorm.ExtraField", true⟩,
    ⟨3, "table", "table", .string, false⟩,
    ⟨4, "multi_account", "multiAccount", .bool, false⟩]

/-- A column without a counterpart in the message. -/
def extraField : MessageType where
  name := "gorm.ExtraField"
  fields := [
    ⟨1, "type", "type", .string, false⟩,
    ⟨2, "name", "name", .string, false⟩,
    ⟨3, "tag", "tag", .message "gorm.GormTag", false⟩,
    ⟨4, "package", "package", .string, false⟩]

/-- Options of a field. More than one association may be set. -/
def fieldOptions : MessageType where
  name := "gorm.GormFieldOptions"
  fields := [
    ⟨1, "tag", "tag", .message "gorm.GormTag", false⟩,
    ⟨2, "drop", "drop", .bool, false⟩,
    ⟨3, "has_one", "hasOne", .message "gorm.HasOneOptions", false⟩,
    ⟨4, "belongs_to", "belongsTo", .message "gorm.BelongsToOptions", false⟩,
    ⟨5, "has_many", "hasMany", .message "gorm.HasManyOptions", false⟩,
    ⟨6, "many_to_many", "manyToMany", .message "gorm.ManyToManyOptions", false⟩,
    ⟨7, "reference_of", "referenceOf", .string, false⟩]

/-- Settings of a column. -/
def columnTag : MessageType where
  name := "gorm.GormTag"
  fields := [
    ⟨1, "column", "column", .string, false⟩,
    ⟨2, "type", "type", .string, false⟩,
    ⟨3, "size", "size", .int32, false⟩,
    ⟨4, "precision", "precision", .int32, false⟩,
    ⟨5, "primary_key", "primaryKey", .bool, false⟩,
    ⟨6, "unique", "unique", .bool, false⟩,
    ⟨7, "default", "default", .string, false⟩,
    ⟨8, "not_null", "notNull", .bool, false⟩,
    ⟨9, "auto_increment", "autoIncrement", .bool, false⟩,
    ⟨10, "index", "index", .string, false⟩,
    ⟨11, "unique_index", "uniqueIndex", .string, false⟩,
    ⟨12, "embedded", "embedded", .bool, false⟩,
    ⟨13, "embedded_prefix", "embeddedPrefix", .string, false⟩,
    ⟨14, "ignore", "ignore", .bool, false⟩,
    ⟨15, "foreignkey", "foreignkey", .string, false⟩,
    ⟨16, "association_foreignkey", "associationForeignkey", .string, false⟩,
    ⟨17, "many_to_many", "manyToMany", .string, false⟩,
    ⟨18, "jointable_foreignkey", "jointableForeignkey", .string, false⟩,
    ⟨19, "association_jointable_foreignkey", "associationJointableForeignkey", .string, false⟩,
    ⟨20, "disable_association_autoupdate", "disableAssociationAutoupdate", .bool, false⟩,
    ⟨21, "disable_association_autocreate", "disableAssociationAutocreate", .bool, false⟩,
    ⟨22, "association_save_reference", "associationSaveReference", .bool, false⟩,
    ⟨23, "preload", "preload", .bool, false⟩,
    ⟨24, "serializer", "serializer", .string, false⟩]

/-- A one-to-one relation owned by the message. -/
def hasOne : MessageType where
  name := "gorm.HasOneOptions"
  fields := [
    ⟨1, "foreignkey", "foreignkey", .string, false⟩,
    ⟨2, "foreignkey_tag", "foreignkeyTag", .message "gorm.GormTag", false⟩,
    ⟨3, "association_foreignkey", "associationForeignkey", .string, false⟩,
    ⟨4, "disable_association_autoupdate", "disableAssociationAutoupdate", .bool, false⟩,
    ⟨5, "disable_association_autocreate", "disableAssociationAutocreate", .bool, false⟩,
    ⟨6, "association_save_reference", "associationSaveReference", .bool, false⟩,
    ⟨7, "preload", "preload", .bool, false⟩,
    ⟨8, "replace", "replace", .bool, false⟩,
    ⟨9, "append", "append", .bool, false⟩,
    ⟨10, "clear", "clear", .bool, false⟩]

/-- A relation whose foreign key is a column of the message. -/
def belongsTo : MessageType where
  name := "gorm.BelongsToOptions"
  fields := [
    ⟨1, "foreignkey", "foreignkey", .string, false⟩,
    ⟨2, "foreignkey_tag", "foreignkeyTag", .message "gorm.GormTag", false⟩,
    ⟨3, "association_foreignkey", "associationForeignkey", .string, false⟩,
    ⟨4, "disable_association_autoupdate", "disableAssociationAutoupdate", .bool, false⟩,
    ⟨5, "disable_association_autocreate", "disableAssociationAutocreate", .bool, false⟩,
    ⟨6, "association_save_reference", "associationSaveReference", .bool, false⟩,
    ⟨7, "preload", "preload", .bool, false⟩]

/-- A one-to-many relation, ordered by a position column if one is named. -/
def hasMany : MessageType where
  name := "gorm.HasManyOptions"
  fields := [
    ⟨1, "foreignkey", "foreignkey", .string, false⟩,
    ⟨2, "foreignkey_tag", "foreignkeyTag", .message "gorm.GormTag", false⟩,
    ⟨3, "association_foreignkey", "associationForeignkey", .string, false⟩,
    ⟨4, "position_field", "positionField", .string, false⟩,
    ⟨5, "position_field_tag", "positionFieldTag", .message "gorm.GormTag", false⟩,
    ⟨6, "disable_association_autoupdate", "disableAssociationAutoupdate", .bool, false⟩,
    ⟨7, "disable_association_autocreate", "disableAssociationAutocreate", .bool, false⟩,
    ⟨8, "association_save_reference", "associationSaveReference", .bool, false⟩,
    ⟨9, "preload", "preload", .bool, false⟩,
    ⟨10, "replace", "replace", .bool, false⟩,
    ⟨11, "append", "append", .bool, false⟩,
    ⟨12, "clear", "clear", .bool, false⟩]

/-- A many-to-many relation through a join table. Number 12 is not used. -/
def manyToMany : MessageType where
  name := "gorm.ManyToManyOptions"
  fields := [
    ⟨1, "jointable", "jointable", .string, false⟩,
    ⟨2, "foreignkey", "foreignkey", .string, false⟩,
    ⟨3, "jointable_foreignkey", "jointableForeignkey", .string, false⟩,
    ⟨4, "association_foreignkey", "associationForeignkey", .string, false⟩,
    ⟨5, "association_jointable_foreignkey", "associationJointableForeignkey", .string, false⟩,
    ⟨6, "disable_association_autoupdate", "disableAssociationAutoupdate", .bool, false⟩,
    ⟨7, "disable_association_autocreate", "disableAssociationAutocreate", .bool, false⟩,
    ⟨8, "association_save_reference", "associationSaveReference", .bool, false⟩,
    ⟨9, "preload", "preload", .bool, false⟩,
    ⟨10, "replace", "replace", .bool, false⟩,
    ⟨11, "append", "append", .bool, false⟩,
    ⟨13, "clear", "clear", .bool, false⟩]

/-- Options of a service. -/
def serviceOptions : MessageType where
  name := "gorm.AutoServerOptions"
  fields := [
    ⟨1, "autogen", "autogen", .bool, false⟩,
    ⟨2, "txn_middleware", "txnMiddleware", .bool, false⟩,
    ⟨3, "with_tracing", "withTracing", .bool, false⟩]

/-- Options of a method. -/
def methodOptions : MessageType where
  name := "gorm.MethodOptions"
  fields := [
    ⟨1, "object_type", "objectType", .string, false⟩]

/-- The schema file of the options. -/
def gormFile : SchemaFile where
  path := "protoc-gen-gorm/options/gorm.proto"
  package := "gorm"
  types := [
    ⟨fileOptions, []⟩,
    ⟨messageOptions, []⟩,
    ⟨extraField, []⟩,
    ⟨fieldOptions, []⟩,
    ⟨columnTag, []⟩,
    ⟨hasOne, []⟩,
    ⟨belongsTo, []⟩,
    ⟨hasMany, []⟩,
    ⟨manyToMany, []⟩,
    ⟨serviceOptions, []⟩,
    ⟨methodOptions, []⟩]

end Catalog
end SchemaCodec
