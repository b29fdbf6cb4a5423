/-! # Kinds and fields

What a node of a script's tree stands for, and the named places that its children take.
-/

namespace ArchiveScript

/-- What a node stands for. -/
inductive Kind where
  | sourceFile
  | parameters
  | parameter
  | shortDescription
  | statementBlock
  | nop
  | set
  | executeUsing
  | executeSql
  | siardMetadata
  | siardOutput
  | forLoop
  | forVariables
  | log
  | assert
  | conditional
  | connection
  | keyValuePairs
  | keyValuePair
  | query
  | scriptResult
  | comparison
  | comparisonOperator
  | dotExpression
  | variableInstance
  | identifier
  | integer
  | string
  | stringContent
  | escapeSequence
  | interpolation
  | raw
  | rawContent
  | safeInterpolation
  | siardSchema
  | siardType
  | siardTable
  | siardColumn
  | siardField
  | siardKey
  | siardCheck
  | siardView
  | commandDeclaration
  deriving DecidableEq, Repr, Inhabited

namespace Kind

/-- The grammar's name of the kind. -/
def name : Kind → String
  | sourceFile => "source_file"
  | parameters => "parameters"
  | parameter => "parameter"
  | shortDescription => "short_description"
  | statementBlock => "statement_block"
  | nop => "nop"
  | set => "set"
  | executeUsing => "execute_using"
  | executeSql => "execute_sql"
  | siardMetadata => "siard_metadata"
  | siardOutput => "siard_output"
  | forLoop => "for_loop"
  | forVariables => "for_variables"
  | log => "log"
  | assert => "assert"
  | conditional => "conditional"
  | connection => "connection"
  | keyValuePairs => "key_value_pairs"
  | keyValuePair => "key_value_pair"
  | query => "query"
  | scriptResult => "script_result"
  | comparison => "comparison"
  | comparisonOperator => "comparison_operator"
  | dotExpression => "dot_expression"
  | variableInstance => "variable_instance"
  | identifier => "identifier"
  | integer => "integer"
  | string => "string"
  | stringContent => "string_content"
  | escapeSequence => "escape_sequence"
  | interpolation => "interpolation"
  | raw => "raw"
  | rawContent => "raw_content"
  | safeInterpolation => "safe_interpolation"
  | siardSchema => "siard_schema"
  | siardType => "siard_type"
  | siardTable => "siard_table"
  | siardColumn => "siard_column"
  | siardField => "siard_field"
  | siardKey => "siard_key"
  | siardCheck => "siard_check"
  | siardView => "siard_view"
  | commandDeclaration => "command_declaration"

def all : List Kind :=
  [sourceFile, parameters, parameter, shortDescription, statementBlock, nop, set, executeUsing,
    executeSql, siardMetadata, siardOutput, forLoop, forVariables, log, assert, conditional,
    connection, keyValuePairs, keyValuePair, query, scriptResult, comparison,
    comparisonOperator, dotExpression, variableInstance, identifier, integer, string,
    stringContent, escapeSequence, interpolation, raw, rawContent, safeInterpolation,
    siardSchema, siardType, siardTable, siardColumn, siardField, siardKey, siardCheck,
    siardView, commandDeclaration]

def ofName? (name : String) : Option Kind := all.find? (·.name == name)

/-- A node of a terminal kind means the text that it covers. -/
def isTerminal : Kind → Bool
  | identifier | integer | stringContent | escapeSequence | rawContent | comparisonOperator
  | shortDescription | nop => true
  | _ => false

end Kind

/-- The named places of children. -/
inductive Field where
  | name
  | value
  | description
  | interpreter
  | script
  | connection
  | sql
  | url
  | properties
  | key
  | loopVariables
  | rows
  | body
  | condition
  | consequent
  | alternative
  | left
  | operator
  | right
  | file
  | title
  | parameters
  | dbname
  | archiver
  | archiverContact
  | dataOwner
  | dataOriginTimespan
  | lobFolder
  deriving DecidableEq, Repr, Inhabited

namespace Field

/-- The grammar's name of the field. -/
def label : Field → String
  | name => "name"
  | value => "value"
  | description => "description"
  | interpreter => "interpreter"
  | script => "script"
  | connection => "connection"
  | sql => "sql"
  | url => "url"
  | properties => "properties"
  | key => "key"
  | loopVariables => "variables"
  | rows => "rows"
  | body => "body"
  | condition => "condition"
  | consequent => "then"
  | alternative => "else"
  | left => "left"
  | operator => "operator"
  | right => "right"
  | file => "file"
  | title => "title"
  | parameters => "parameters"
  | dbname => "dbname"
  | archiver => "archiver"
  | archiverContact => "archiverContact"
  | dataOwner => "dataOwner"
  | dataOriginTimespan => "dataOriginTimespan"
  | lobFolder => "lobFolder"

def all : List Field :=
  [name, value, description, interpreter, script, connection, sql, url, properties, key,
    loopVariables, rows, body, condition, consequent, alternative, left, operator, right, file,
    title, parameters, dbname, archiver, archiverContact, dataOwner, dataOriginTimespan,
    lobFolder]

def ofLabel? (label : String) : Option Field := all.find? (·.label == label)

/-- The fields that describe an archive as a whole, in the order in which they are declared. -/
def archiveInfo : List Field :=
  [dbname, description, archiver, archiverContact, dataOwner, dataOriginTimespan, lobFolder]

/-- The archive field that a script names by `keyword`. -/
def archiveInfo? (keyword : String) : Option Field := archiveInfo.find? (·.label == keyword)

end Field

end ArchiveScript
